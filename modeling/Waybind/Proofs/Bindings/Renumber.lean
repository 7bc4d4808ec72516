import Waybind.Proofs.Bindings.Blame
import Waybind.Proofs.Bindings.Outcome
import Waybind.Proofs.Registry.Renumber

/-!
This module contains that bindings are the same when the protocols have other numbers. Numbers do not
appear in bindings: they only tell whether an enumeration is one of the interface that refers to it.
-/

namespace Waybind
namespace Bindings

open Lookup
open Registry (appendNew ofFamily)
open Xml (Element)

section Lookups

variable {f : Nat → Nat} {registry registry' : Registry} (h : registry.Renumbered f registry')

include h

theorem eval_handleType_renumber (place : Place) (name : String) :
    eval registry' (handleType (place.renumber f) name) = eval registry (handleType place name) := by
  rw [handleType, handleType, bind_pure_comp, bind_pure_comp, eval_map, eval_map, Place.renumber,
    eval_findInterface_renumber h]
  cases eval registry (findInterface place.protocol name) with
  | error error => rfl
  | ok interface => rfl

theorem eval_conversion_renumber (place : Place) (arg : Arg) :
    eval registry' (conversion (place.renumber f) (arg.renumber f)) =
      eval registry (conversion place arg) := by
  simp only [conversion, integerConversion, Arg.renumber]
  cases arg.type with
  | int | uint =>
    cases arg.enum with
    | none => rfl
    | some name =>
      simp only [bind_pure_comp, eval_map, eval_findEnum_renumber h]
      cases eval registry (findEnum place name) with
      | error error => rfl
      | ok found => rfl
  | fixed | string | fd | newId | object => rfl
  | array =>
    cases arg.interface with
    | none => rfl
    | some name => simp only [eval_map, eval_handleType_renumber h place name]

theorem eval_returnType_renumber (place : Place) (request : Request) :
    eval registry' (returnType (place.renumber f) (request.renumber f)) =
      eval registry (returnType place request) := by
  have hcreated : (request.renumber f).createdInterface? = request.createdInterface? := by
    simp only [Request.createdInterface?, Request.renumber, Message.renumber, List.filter_map,
      List.findSome?_map]
    rfl
  have hkind : (request.renumber f).kind = request.kind := rfl
  unfold returnType
  rw [hcreated, hkind]
  cases request.createdInterface? with
  | none =>
    cases request.kind with
    | normal | destructor | constructor => rfl
  | some name =>
    cases request.kind with
    | normal | destructor => rfl
    | constructor => simp only [eval_map, eval_handleType_renumber h place name]

theorem id_renumber_eq_iff {owner other : Interface} (howner : Declared registry owner)
    (hother : Declared registry other) :
    (owner.renumber f).id = (other.renumber f).id ↔ owner.id = other.id := by
  obtain ⟨protocol, hprotocol, hnumber⟩ := howner.exists_number_eq h.coherent
  obtain ⟨protocol', hprotocol', hnumber'⟩ := hother.exists_number_eq h.coherent
  constructor
  · intro heq
    simp only [Interface.renumber, InterfaceId.renumber, InterfaceId.mk.injEq, hnumber,
      hnumber'] at heq
    have hsame := h.eq_of_number_eq hprotocol hprotocol' heq.1
    rw [← hsame, ← hnumber] at hnumber'
    exact congrArg₂ InterfaceId.mk hnumber'.symm heq.2
  · intro heq
    simp only [Interface.renumber, heq]

variable {place : Place} (hplace : Registered registry place)

include hplace

theorem enumTypeOf_renumber {owner : Interface} (howner : Declared registry owner)
    (enum : Enumeration) :
    enumTypeOf (place.interface.renumber f) (owner.renumber f) enum =
      enumTypeOf place.interface owner enum := by
  have hsame := id_renumber_eq_iff h howner ⟨place.protocol, hplace.1, hplace.2⟩
  unfold enumTypeOf
  by_cases hid : owner.id = place.interface.id
  · rw [if_pos hid, if_pos (hsame.mpr hid)]
  · rw [if_neg hid, if_neg (mt hsame.mp hid)]
    rfl

theorem eval_enumType_renumber (name : String) :
    eval registry' (enumType (place.renumber f) name) = eval registry (enumType place name) := by
  rw [enumType, enumType, bind_pure_comp, bind_pure_comp, eval_map, eval_map,
    eval_findEnum_renumber h]
  rcases finds_findEnum h.coherent hplace name with ⟨error, hfails⟩ | ⟨found, hfound, hyields⟩
  · rw [hfails.eval_eq h.coherent]
    rfl
  · rw [hyields.eval_eq h.coherent]
    exact congrArg Except.ok (enumTypeOf_renumber h hplace hfound found.2)

theorem eval_argType_renumber (arg : Arg) :
    eval registry' (argType (place.renumber f) (arg.renumber f) .typed) =
      eval registry (argType place arg .typed) := by
  simp only [argType, integerType, Arg.renumber]
  cases arg.type with
  | int | uint =>
    cases arg.enum with
    | none => rfl
    | some name => exact eval_enumType_renumber h hplace name
  | fixed | string | fd => rfl
  | newId =>
    cases arg.interface with
    | none => rfl
    | some name => exact eval_handleType_renumber h place name
  | object | array =>
    cases arg.interface with
    | none => rfl
    | some name => simp only [eval_map, eval_handleType_renumber h place name]

theorem typeOf_renumber (arg : Arg) :
    typeOf registry' (place.renumber f) (arg.renumber f) = typeOf registry place arg := by
  rw [typeOf, typeOf, value, value, eval_argType_renumber h hplace]

theorem unresolved?_renumber (arg : Arg) :
    unresolved? registry' (place.renumber f) (arg.renumber f) = unresolved? registry place arg := by
  rw [← fault?_argType, ← fault?_argType, fault?, fault?, eval_argType_renumber h hplace]

theorem argFault?_renumber (message : Message) (arg : Arg) :
    argFault? registry' (place.renumber f) (message.renumber f) (arg.renumber f) =
      argFault? registry place message arg := by
  rw [argFault?, argFault?, unresolved?_renumber h hplace]
  rfl

theorem messageFault?_renumber (message : Message) :
    messageFault? registry' (place.renumber f) (message.renumber f) =
      messageFault? registry place message := by
  unfold messageFault?
  rw [show (message.renumber f).args = message.args.map (Arg.renumber f) from rfl,
    List.findSome?_map]
  congr 1
  funext arg
  exact argFault?_renumber h hplace message arg

theorem messageQualifiers_renumber (message : Message) :
    messageQualifiers registry' (place.renumber f) (message.renumber f) =
      messageQualifiers registry place message := by
  unfold messageQualifiers
  rw [show (message.renumber f).args = message.args.map (Arg.renumber f) from rfl,
    List.flatMap_map]
  congr 1
  funext arg
  rw [typeOf_renumber h hplace]

end Lookups

theorem signature_renumber (f : Nat → Nat) (event : Event) :
    signature (event.renumber f) = signature event := by
  simp [signature, Event.renumber, Message.renumber, Arg.renumber, Function.comp_def]

theorem metadata_renumber (f : Nat → Nat) (interface : Interface) :
    metadata (interface.renumber f) = metadata interface := by
  have hsignatures : signatures (interface.renumber f).events.values =
      signatures interface.events.values := by
    rw [signatures, signatures, Interface.renumber, Table.values_map, List.map_map]
    simp only [Function.comp_def, signature_renumber]
  simp only [metadata, hsignatures]
  simp [Interface.renumber, Interface.fullName]

structure Typing.Renumbered (f : Nat → Nat) (typing typing' : Typing) : Prop where
  type : ∀ arg, typing'.type (arg.renumber f) = typing.type arg
  conversion : ∀ arg, typing'.conversion (arg.renumber f) = typing.conversion arg
  result : ∀ request, typing'.result (request.renumber f) = typing.result request

namespace Typing.Renumbered

variable {f : Nat → Nat} {typing typing' : Typing} (h : Typing.Renumbered f typing typing')

include h

theorem field (defaults : Bool) (arg : Arg) :
    typing'.field defaults (arg.renumber f) = typing.field defaults arg := by
  rw [Typing.field, Typing.field, h.type]
  rfl

theorem variant (defaults : Bool) (message : Message) :
    typing'.variant defaults (message.renumber f) = typing.variant defaults message := by
  have hfields : (message.renumber f).args.map (typing'.field defaults) =
      message.args.map (typing.field defaults) := by
    rw [Message.renumber, List.map_map]
    apply List.map_congr_left
    intro arg _
    exact h.field defaults arg
  rw [Typing.variant, Typing.variant, hfields]
  rfl

theorem decodedEvent (event : Event) :
    typing'.decodedEvent (event.renumber f) = typing.decodedEvent event := by
  have hfields : (event.renumber f).args.zipIdx.map typing'.decodedField =
      event.args.zipIdx.map typing.decodedField := by
    rw [Event.renumber, Message.renumber, List.zipIdx_map, List.map_map]
    apply List.map_congr_left
    intro arg _
    rw [Function.comp_apply, Typing.decodedField, Typing.decodedField, Prod.map_fst, Prod.map_snd,
      h.conversion]
    rfl
  have hempty : (event.renumber f).args.isEmpty = event.args.isEmpty := by
    simp [Event.renumber, Message.renumber]
  rw [Typing.decodedEvent, Typing.decodedEvent, hfields, hempty]
  rfl

theorem eventUnion (interface : Interface) :
    typing'.eventUnion (interface.renumber f) = typing.eventUnion interface := by
  have hevents : (interface.renumber f).events.values =
      interface.events.values.map (Event.renumber f) := Table.values_map _ _
  have hany : ((interface.events.values.map (Event.renumber f)).any (!·.args.isEmpty)) =
      interface.events.values.any (!·.args.isEmpty) := by
    rw [List.any_map]
    congr 1
    funext event
    simp [Event.renumber, Message.renumber]
  have hvariants : (fun event : Event => typing'.variant false event.toMessage) ∘ Event.renumber f =
      fun event => typing.variant false event.toMessage :=
    funext fun event => h.variant false event.toMessage
  have harms : (fun event : Event => (toString event.opcode.toNat, typing'.decodedEvent event))
      ∘ Event.renumber f =
        fun event => (toString event.opcode.toNat, typing.decodedEvent event) :=
    funext fun event => congrArg (toString event.opcode.toNat, ·) (h.decodedEvent event)
  simp only [Typing.eventUnion, Typing.decoder, hevents, hany, List.map_map, hvariants, harms]

theorem requestUnion (interface : Interface) :
    typing'.requestUnion (interface.renumber f) = typing.requestUnion interface := by
  have hrequests : (interface.renumber f).requests.values =
      interface.requests.values.map (Request.renumber f) := Table.values_map _ _
  have hvariants : typing'.requestVariant ∘ Request.renumber f = typing.requestVariant := by
    funext request
    rw [Function.comp_apply, Typing.requestVariant, Typing.requestVariant, h.result]
    exact congrArg (·, _) (h.variant true request.toMessage)
  simp only [Typing.requestUnion, hrequests, List.map_map, hvariants]

theorem text (interface : Interface) :
    typing'.text (interface.renumber f) = typing.text interface := by
  have hempty : (interface.renumber f).events.isEmpty = interface.events.isEmpty :=
    Table.isEmpty_map _ _
  rw [Typing.text, Typing.text, Typing.eventUnion?, Typing.eventUnion?, hempty, h.eventUnion,
    h.requestUnion, handleText, handleText, metadata_renumber]
  rfl

end Typing.Renumbered

section Namespaces

theorem findSome?_congr {α β : Type} {g g' : α → Option β} {xs : List α}
    (h : ∀ x ∈ xs, g x = g' x) : xs.findSome? g = xs.findSome? g' := by
  induction xs with
  | nil => rfl
  | cons x xs ih =>
    obtain ⟨hx, hxs⟩ := List.forall_mem_cons.mp h
    rw [List.findSome?_cons, List.findSome?_cons, hx, ih hxs]

theorem namespaceFault?_eq_unit (registry : Registry) (family : String) :
    namespaceFault? registry family =
      (unit registry family).findSome? (interfaceFault? registry) := by
  rw [unit, findSome?_flatMap]
  rfl

variable {f : Nat → Nat} {registry registry' : Registry} (h : registry.Renumbered f registry')

theorem placesOf_renumber (protocol : Protocol) :
    placesOf (protocol.renumber f) = (placesOf protocol).map (Place.renumber f) := by
  simp [placesOf, Protocol.renumber, Place.renumber, Function.comp_def]

theorem messages_renumber (interface : Interface) :
    messages (interface.renumber f) = (messages interface).map (Message.renumber f) := by
  simp [messages, Interface.renumber, Event.renumber, Request.renumber, Function.comp_def]

include h

section Place

variable {place : Place} (hplace : Registered registry place)

include hplace

theorem typing_renumber :
    Typing.Renumbered f (typing registry place) (typing registry' (place.renumber f)) where
  type := typeOf_renumber h hplace
  conversion := by
    intro arg
    simp only [typing, conversionOf, value, eval_conversion_renumber h]
  result := by
    intro request
    simp only [typing, resultOf, value, eval_returnType_renumber h]

theorem interfaceFault?_renumber :
    interfaceFault? registry' (place.renumber f) = interfaceFault? registry place := by
  rw [interfaceFault?, interfaceFault?, Place.renumber, messages_renumber, List.findSome?_map]
  congr 1
  funext message
  exact messageFault?_renumber h hplace message

theorem payloadQualifiers_renumber :
    payloadQualifiers registry' (place.renumber f) = payloadQualifiers registry place := by
  rw [payloadQualifiers, payloadQualifiers, Place.renumber, messages_renumber, List.flatMap_map]
  congr 1
  funext message
  exact messageQualifiers_renumber h hplace message

end Place

theorem unit_renumber (family : String) :
    unit registry' family = (unit registry family).map (Place.renumber f) := by
  simp only [unit, h.ofFamily_eq, List.flatMap_map, List.map_flatMap, placesOf_renumber]

theorem namespaceFault?_renumber (family : String) :
    namespaceFault? registry' family = namespaceFault? registry family := by
  rw [namespaceFault?_eq_unit, namespaceFault?_eq_unit, unit_renumber h, List.findSome?_map]
  apply findSome?_congr
  intro place hplace
  exact interfaceFault?_renumber h (registered_of_mem_unit hplace)

theorem protocolText_renumber {protocol : Protocol} (hprotocol : protocol ∈ registry.protocols) :
    protocolText registry' (protocol.renumber f) = protocolText registry protocol := by
  have htexts : (placesOf (protocol.renumber f)).map (fun place =>
      (typing registry' place).text place.interface) =
        (placesOf protocol).map fun place => (typing registry place).text place.interface := by
    rw [placesOf_renumber, List.map_map]
    apply List.map_congr_left
    intro place hplace
    obtain ⟨interface, hinterface, rfl⟩ := List.mem_map.mp hplace
    exact (typing_renumber h ⟨hprotocol, hinterface⟩).text interface
  have hcomment : protocolComment (protocol.renumber f) = protocolComment protocol := rfl
  rw [protocolText, protocolText, htexts, hcomment]

theorem namespaceText_renumber (family : String) :
    namespaceText registry' family = namespaceText registry family := by
  rw [namespaceText, namespaceText, h.ofFamily_eq, List.map_map]
  apply congrArg String.join
  apply List.map_congr_left
  intro protocol hprotocol
  exact protocolText_renumber h (List.mem_of_mem_filter hprotocol)

theorem determined_renumber (runtimeDir family : String) :
    determined registry' runtimeDir family = determined registry runtimeDir family := by
  have hqualifiers : (unit registry' family).flatMap (payloadQualifiers registry') =
      (unit registry family).flatMap (payloadQualifiers registry) := by
    rw [unit_renumber h, List.flatMap_map]
    apply List.flatMap_congr
    intro place hplace
    exact payloadQualifiers_renumber h (registered_of_mem_unit hplace)
  rw [determined, determined, namespaceFault?_renumber h, namespaceText_renumber h, hqualifiers]

end Namespaces

end Bindings
end Waybind
