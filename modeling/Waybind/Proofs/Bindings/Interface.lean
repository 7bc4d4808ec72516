import Waybind.Bindings.Interface
import Waybind.Proofs.Bindings.Argument

/-!
This module contains what the bindings of an interface are, once the types of its arguments are
known, and that generating them fails for the first argument whose reference is unresolved.
-/

namespace Waybind
namespace Bindings

open Lookup
open Zig (TypeExpr Conversion Node Field Variant)

def handleText (interface : Interface) (event : Option Node) (request : Node) : String :=
  Zig.comment (interface.description.map (·.body)) "///"
    ++ "pub const " ++ Zig.ident interface.handleName ++ " = enum(u32) \x7b\n_,\n"
    ++ (metadata interface).render
    ++ String.join (interface.enums.values.map enumText)
    ++ (event.map Node.render).getD ""
    ++ request.render
    ++ "\x7d;\n"

def interfaceText (place : Place) : LookupM Error String := do
  let event ← eventUnion? place
  let request ← requestUnion place
  return handleText place.interface event request

structure Typing where
  type : Arg → TypeExpr
  conversion : Arg → Conversion
  result : Request → ReturnType

namespace Typing

variable (typing : Typing)

def field (defaults : Bool) (arg : Arg) : Field where
  name := arg.name
  type := (typing.type arg).render
  default := if defaults then argDefault? arg else none
  comment := arg.summary

def variant (defaults : Bool) (message : Message) : Variant Node :=
  let fields := message.args.map (typing.field defaults)
  { name := message.name
    payload := if fields.isEmpty then none else some (.struct none fields)
    doc := message.description.map (·.body) }

def decodedField (arg : Arg × Nat) : String × String :=
  (arg.1.name, (typing.conversion arg.1).render (rawArg arg.1 arg.2))

def decodedEvent (event : Event) : String :=
  if event.args.isEmpty then
    "Event." ++ Zig.ident event.name
  else
    let payload := Node.init none (event.args.zipIdx.map typing.decodedField)
    (Node.init (some "Event") [(event.name, payload.render)]).render

def decoder (interface : Interface) : Node :=
  let events := interface.events.values
  let arms := events.map fun event => (toString event.opcode.toNat, typing.decodedEvent event)
  let args := if events.any (!·.args.isEmpty) then "args" else "_"
  .function "from_args" [("opcode", "u16"), (args, "[]Argument")] "Event"
    (.ret (.switch "opcode" (arms ++ [("else", "unreachable")])))

def eventUnion (interface : Interface) : Node :=
  .assignment "Event" (.union
    (interface.events.values.map fun event => typing.variant false event.toMessage)
    [typing.decoder interface])

def requestVariant (request : Request) : Variant Node × (String × String) :=
  (typing.variant true request.toMessage,
    ("." ++ Zig.ident request.name, (typing.result request).render))

def requestUnion (interface : Interface) : Node :=
  let requests := interface.requests.values.map typing.requestVariant
  let returnTypes := Node.function "ReturnType" [("request", "std.meta.Tag(Request)")] "type"
    (.ret (.switch "request" (requests.map Prod.snd)))
  .assignment "Request" (.union (requests.map Prod.fst) [returnTypes])

def eventUnion? (interface : Interface) : Option Node :=
  if interface.events.isEmpty then none else some (typing.eventUnion interface)

def text (interface : Interface) : String :=
  handleText interface (typing.eventUnion? interface) (typing.requestUnion interface)

end Typing

def messages (interface : Interface) : List Message :=
  interface.events.values.map (·.toMessage) ++ interface.requests.values.map (·.toMessage)

section Definitions

variable (reference : Registry) (place : Place)

def typing : Typing where
  type := typeOf reference place
  conversion := conversionOf reference place
  result := resultOf reference place

def argFault? (message : Message) (arg : Arg) : Option Error :=
  (unresolved? reference place arg).map (argError place message arg)

def messageFault? (message : Message) : Option Error :=
  message.args.findSome? (argFault? reference place message)

def messageUses (message : Message) : List (Nat × String) :=
  message.args.flatMap fun arg => usesOf place (typeOf reference place arg)

end Definitions

section Lookups

variable {reference : Registry} {place : Place} (hcoherent : reference.Coherent)
  (hplace : Registered reference place)

theorem unresolved?_eq_none {message : Message} (h : messageFault? reference place message = none) :
    ∀ arg ∈ message.args, unresolved? reference place arg = none := by
  intro arg harg
  have hfault := List.findSome?_eq_none_iff.mp h arg harg
  rwa [argFault?, Option.map_eq_none_iff] at hfault

include hcoherent hplace

theorem runs_payloadField (message : Message) (defaults : Bool) (arg : Arg) :
    Runs reference (payloadField place message defaults arg) (argFault? reference place message arg)
      ((typing reference place).field defaults arg)
      (usesOf place (typeOf reference place arg)) := by
  rw [payloadField, bind_pure_comp]
  exact ((runs_argType hcoherent hplace arg).adapt _).map _

theorem runs_messageVariant (defaults : Bool) (message : Message) :
    Runs reference (messageVariant place defaults message) (messageFault? reference place message)
      ((typing reference place).variant defaults message)
      (messageUses reference place message) := by
  rw [messageVariant, bind_pure_comp]
  apply Runs.map
  apply runs_mapM
  intro arg _
  exact runs_payloadField hcoherent hplace message defaults arg

theorem within_decodedField (message : Message) {arg : Arg} (index : Nat)
    (h : unresolved? reference place arg = none) :
    Within reference (decodedField place message (arg, index))
      ((typing reference place).decodedField (arg, index))
      (usesOf place (typeOf reference place arg)) := by
  rw [decodedField, bind_pure_comp]
  exact (((within_conversion hcoherent hplace h).1.map _).adapt _).map _

theorem within_decodedEvent {event : Event}
    (h : messageFault? reference place event.toMessage = none) :
    Within reference (decodedEvent place event) ((typing reference place).decodedEvent event)
      (messageUses reference place event.toMessage) := by
  unfold decodedEvent Typing.decodedEvent
  split
  · exact .pure _
  · rw [bind_pure_comp]
    apply Within.map
    have huses : messageUses reference place event.toMessage =
        event.args.zipIdx.flatMap fun arg => usesOf place (typeOf reference place arg.1) := by
      rw [messageUses, ← List.zipIdx_map_fst 0 event.args, List.flatMap_map,
        List.zipIdx_map_fst]
    rw [huses]
    apply Within.mapM
    rintro ⟨arg, index⟩ harg
    have hmem := List.fst_mem_of_mem_zipIdx harg
    exact within_decodedField hcoherent hplace _ index (unresolved?_eq_none h arg hmem)

theorem within_decoder
    (h : ∀ event ∈ place.interface.events.values,
      messageFault? reference place event.toMessage = none) :
    Within reference (decoder place) ((typing reference place).decoder place.interface)
      (place.interface.events.values.flatMap fun event =>
        messageUses reference place event.toMessage) := by
  rw [decoder, bind_pure_comp]
  apply Within.map
  apply Within.mapM
  intro event hevent
  rw [decoderArm, bind_pure_comp]
  exact (within_decodedEvent hcoherent hplace (h event hevent)).map _

theorem runs_eventVariants :
    Runs reference
      (place.interface.events.values.mapM fun event => messageVariant place false event.toMessage)
      (place.interface.events.values.findSome? fun event =>
        messageFault? reference place event.toMessage)
      (place.interface.events.values.map fun event =>
        (typing reference place).variant false event.toMessage)
      (place.interface.events.values.flatMap fun event =>
        messageUses reference place event.toMessage) := by
  apply runs_mapM
  intro event _
  exact runs_messageVariant hcoherent hplace false event.toMessage

theorem runs_eventUnion :
    Runs reference (eventUnion place)
      (place.interface.events.values.findSome? fun event =>
        messageFault? reference place event.toMessage)
      ((typing reference place).eventUnion place.interface)
      (place.interface.events.values.flatMap fun event =>
        messageUses reference place event.toMessage) := by
  unfold eventUnion
  -- the decoder looks up again what the payloads have already needed
  apply (runs_eventVariants hcoherent hplace).bind_within
  intro hfault
  rw [bind_pure_comp]
  apply Within.map
  exact within_decoder hcoherent hplace (List.findSome?_eq_none_iff.mp hfault)

theorem runs_eventUnion? :
    Runs reference (eventUnion? place)
      (place.interface.events.values.findSome? fun event =>
        messageFault? reference place event.toMessage)
      ((typing reference place).eventUnion? place.interface)
      (place.interface.events.values.flatMap fun event =>
        messageUses reference place event.toMessage) := by
  unfold eventUnion? Typing.eventUnion?
  split
  · next hempty =>
    have hnone : place.interface.events.values = [] := by
      rw [Table.isEmpty, List.isEmpty_iff] at hempty
      rw [Table.values, hempty, List.map_nil]
    rw [hnone]
    exact Yields.pure none
  · exact (runs_eventUnion hcoherent hplace).map some

theorem runs_requestVariant (request : Request) :
    Runs reference (requestVariant place request)
      (messageFault? reference place request.toMessage)
      ((typing reference place).requestVariant request)
      (messageUses reference place request.toMessage) := by
  unfold requestVariant
  apply (runs_messageVariant hcoherent hplace true request.toMessage).bind_within
  intro hfault
  rw [bind_pure_comp]
  apply Within.map
  exact (within_returnType hcoherent hplace (unresolved?_eq_none hfault)).1.adapt _

theorem runs_requestUnion :
    Runs reference (requestUnion place)
      (place.interface.requests.values.findSome? fun request =>
        messageFault? reference place request.toMessage)
      ((typing reference place).requestUnion place.interface)
      (place.interface.requests.values.flatMap fun request =>
        messageUses reference place request.toMessage) := by
  rw [requestUnion, bind_pure_comp]
  apply Runs.map
  apply runs_mapM
  intro request _
  exact runs_requestVariant hcoherent hplace request

theorem runs_interfaceText :
    Runs reference (interfaceText place)
      ((messages place.interface).findSome? (messageFault? reference place))
      ((typing reference place).text place.interface)
      ((messages place.interface).flatMap (messageUses reference place)) := by
  rw [messages, List.findSome?_append, List.findSome?_map, List.findSome?_map, List.flatMap_append,
    List.flatMap_map, List.flatMap_map, interfaceText]
  apply (runs_eventUnion? hcoherent hplace).bind
  intro _
  rw [bind_pure_comp]
  exact (runs_requestUnion hcoherent hplace).map _

end Lookups
end Bindings
end Waybind
