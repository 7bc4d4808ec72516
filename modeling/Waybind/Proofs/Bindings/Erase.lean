import Waybind.Proofs.Bindings.Renumber
import Waybind.Proofs.Registry.Erase
import Waybind.Proofs.Zig.Node

/-!
This module contains that documentation appears in bindings as documentation only: the bindings of
an interface without it are the same nodes without it. What can go wrong and the imports do not
depend on it either.
-/

namespace Waybind
namespace Bindings

open Lookup
open Registry (ofFamily)
open Zig (Node Variant)

theorem signature_erase (event : Event) : signature event.erase = signature event := by
  simp [signature, Event.erase, Message.erase, Arg.erase, Function.comp_def]

theorem metadata_erase (interface : Interface) : metadata interface.erase = metadata interface := by
  have hsignatures : signatures interface.erase.events.values =
      signatures interface.events.values := by
    rw [signatures, signatures, Interface.erase, Table.values_map, List.map_map]
    simp only [Function.comp_def, signature_erase]
  simp only [metadata, hsignatures]
  simp [Interface.erase, Interface.fullName]

theorem bitfield_erase (enum : Enumeration) : bitfield enum.erase = (bitfield enum).bare := by
  have hfields : bitfieldFields enum.erase = (bitfieldFields enum).map Zig.Field.bare := by
    simp only [bitfieldFields, Enumeration.flags_erase, List.map_map, List.length_map]
    split
    · rw [List.map_append, List.map_map]
      rfl
    · rw [List.map_map]
      rfl
  rw [bitfield, bitfield, hfields]
  rfl

structure Typing.Undocumented (typing : Typing) : Prop where
  type : ∀ arg, typing.type arg.erase = typing.type arg
  conversion : ∀ arg, typing.conversion arg.erase = typing.conversion arg
  result : ∀ request, typing.result request.erase = typing.result request

theorem undocumented_typing (registry : Registry) (place : Place) :
    (typing registry place).Undocumented where
  type _ := rfl
  conversion _ := rfl
  result := by
    intro request
    simp only [typing, resultOf, returnType, Request.createdInterface?_erase]
    rfl

namespace Typing.Undocumented

variable {typing : Typing} (h : typing.Undocumented)

include h

theorem variant (defaults : Bool) (message : Message) :
    typing.variant defaults message.erase = (typing.variant defaults message).bare := by
  have hfields : message.erase.args.map (typing.field defaults) =
      (message.args.map (typing.field defaults)).map Zig.Field.bare := by
    rw [Message.erase, List.map_map, List.map_map]
    apply List.map_congr_left
    intro arg _
    rw [Function.comp_apply, Typing.field, h.type]
    rfl
  simp only [Typing.variant, hfields, List.isEmpty_map]
  cases message.args.isEmpty with
  | true => rfl
  | false => rfl

theorem decodedEvent (event : Event) :
    typing.decodedEvent event.erase = typing.decodedEvent event := by
  have hfields : event.erase.args.zipIdx.map typing.decodedField =
      event.args.zipIdx.map typing.decodedField := by
    rw [Event.erase, Message.erase, List.zipIdx_map, List.map_map]
    apply List.map_congr_left
    intro arg _
    rw [Function.comp_apply, Typing.decodedField, Typing.decodedField, Prod.map_fst, Prod.map_snd,
      h.conversion]
    rfl
  have hempty : event.erase.args.isEmpty = event.args.isEmpty := by
    simp [Event.erase, Message.erase]
  rw [Typing.decodedEvent, Typing.decodedEvent, hfields, hempty]
  rfl

theorem decoder (interface : Interface) :
    typing.decoder interface.erase = typing.decoder interface := by
  have hevents : interface.erase.events.values = interface.events.values.map Event.erase :=
    Table.values_map _ _
  have hany : ((interface.events.values.map Event.erase).any (!·.args.isEmpty)) =
      interface.events.values.any (!·.args.isEmpty) := by
    rw [List.any_map]
    congr 1
    funext event
    simp [Event.erase, Message.erase]
  have harms : (fun event : Event => (toString event.opcode.toNat, typing.decodedEvent event))
      ∘ Event.erase = fun event => (toString event.opcode.toNat, typing.decodedEvent event) :=
    funext fun event => congrArg (toString event.opcode.toNat, ·) (h.decodedEvent event)
  simp only [Typing.decoder, hevents, hany, List.map_map, harms]

theorem eventUnion (interface : Interface) :
    typing.eventUnion interface.erase = (typing.eventUnion interface).bare := by
  have hvariants : interface.erase.events.values.map
      (fun event => typing.variant false event.toMessage) =
        Zig.bareVariants (interface.events.values.map
          fun event => typing.variant false event.toMessage) := by
    rw [Interface.erase, Table.values_map, List.map_map, Zig.bareVariants_eq, List.map_map]
    apply List.map_congr_left
    intro event _
    exact h.variant false event.toMessage
  rw [Typing.eventUnion, h.decoder, hvariants]
  rfl

theorem requestUnion (interface : Interface) :
    typing.requestUnion interface.erase = (typing.requestUnion interface).bare := by
  have hvariants : (interface.erase.requests.values.map typing.requestVariant).map Prod.fst =
      Zig.bareVariants ((interface.requests.values.map typing.requestVariant).map Prod.fst) := by
    rw [Interface.erase, Table.values_map, Zig.bareVariants_eq]
    simp only [List.map_map]
    apply List.map_congr_left
    intro request _
    exact h.variant true request.toMessage
  have harms : (interface.erase.requests.values.map typing.requestVariant).map Prod.snd =
      (interface.requests.values.map typing.requestVariant).map Prod.snd := by
    rw [Interface.erase, Table.values_map]
    simp only [List.map_map]
    apply List.map_congr_left
    intro request _
    simp only [Function.comp_apply, Typing.requestVariant, h.result]
    rfl
  simp only [Typing.requestUnion, hvariants, harms]
  rfl

end Typing.Undocumented

theorem messages_erase (interface : Interface) :
    messages interface.erase = (messages interface).map Message.erase := by
  simp [messages, Interface.erase, Event.erase, Request.erase, Function.comp_def]

theorem placesOf_erase (protocol : Protocol) :
    placesOf protocol.erase = (placesOf protocol).map Place.erase := by
  simp [placesOf, Protocol.erase, Place.erase, Function.comp_def]

theorem messageFault?_erase (registry : Registry) (place : Place) (message : Message) :
    messageFault? registry place message.erase = messageFault? registry place message := by
  rw [messageFault?, messageFault?, Message.erase, List.findSome?_map]
  rfl

theorem messageQualifiers_erase (registry : Registry) (place : Place) (message : Message) :
    messageQualifiers registry place message.erase = messageQualifiers registry place message := by
  rw [messageQualifiers, messageQualifiers, Message.erase, List.flatMap_map]
  rfl

theorem interfaceFault?_eq_erase (registry : Registry) (place : Place) :
    interfaceFault? registry place =
      (messages place.interface.erase).findSome? (messageFault? registry place) := by
  rw [messages_erase, List.findSome?_map]
  apply findSome?_congr
  intro message _
  exact (messageFault?_erase registry place message).symm

theorem payloadQualifiers_eq_erase (registry : Registry) (place : Place) :
    payloadQualifiers registry place =
      (messages place.interface.erase).flatMap (messageQualifiers registry place) := by
  rw [messages_erase, List.flatMap_map]
  apply List.flatMap_congr
  intro message _
  exact (messageQualifiers_erase registry place message).symm

theorem map_eq_map_of_map_eq {α β γ : Type} {f : α → β} {g g' : α → γ} {xs ys : List α}
    (h : xs.map f = ys.map f) (hg : ∀ x ∈ xs, ∀ y ∈ ys, f x = f y → g x = g' y) :
    xs.map g = ys.map g' := by
  induction xs generalizing ys with
  | nil =>
    rw [List.map_nil, eq_comm, List.map_eq_nil_iff] at h
    rw [h]
    rfl
  | cons x xs ih =>
    cases ys with
    | nil => cases h
    | cons y ys =>
      obtain ⟨hhead, htail⟩ := List.cons.inj h
      rw [List.map_cons, List.map_cons, hg x List.mem_cons_self y List.mem_cons_self hhead]
      rw [ih htail fun x hx y hy => hg x (List.mem_cons_of_mem _ hx) y (List.mem_cons_of_mem _ hy)]

section Redocumented

variable {registry registry' : Registry} (h : registry.Redocumented registry')

include h

theorem unit_erase (family : String) :
    (unit registry family).map Place.erase = (unit registry' family).map Place.erase := by
  have hplaces (protocols : List Protocol) : (protocols.flatMap placesOf).map Place.erase =
      (protocols.map Protocol.erase).flatMap placesOf := by
    simp only [List.map_flatMap, List.flatMap_map, placesOf_erase]
  rw [unit, unit, hplaces, hplaces, h.ofFamily_eq]

section Place

variable {place place' : Place} (hplace : place.erase = place'.erase)

include hplace

theorem typing_redocumented : typing registry place = typing registry' place' := by
  have hcorresponds := h.corresponds hplace
  have htype (arg : Arg) : typeOf registry place arg = typeOf registry' place' arg := by
    rw [typeOf, typeOf, value, value, (hcorresponds.argType arg).eq]
  have hconversion (arg : Arg) :
      conversionOf registry place arg = conversionOf registry' place' arg := by
    rw [conversionOf, conversionOf, value, value, (hcorresponds.conversion arg).eq]
  have hresult (request : Request) :
      resultOf registry place request = resultOf registry' place' request := by
    rw [resultOf, resultOf, value, value, (hcorresponds.returnType request).eq]
  rw [typing, typing, funext htype, funext hconversion, funext hresult]

theorem messageFault?_redocumented (message : Message) :
    messageFault? registry place message = messageFault? registry' place' message := by
  have hinterface := (h.corresponds hplace).interface
  apply findSome?_congr
  intro arg _
  have hfault : unresolved? registry place arg = unresolved? registry' place' arg := by
    rw [← fault?_argType, ← fault?_argType, fault?, fault?, ((h.corresponds hplace).argType arg).eq]
  have herror : argError place message arg = argError place' message arg := by
    funext cause
    simp only [argError, Interface.fullName, hinterface.family_eq, hinterface.name_eq]
  rw [argFault?, argFault?, hfault, herror]

theorem interfaceFault?_redocumented :
    interfaceFault? registry place = interfaceFault? registry' place' := by
  have hinterface : place.interface.erase = place'.interface.erase :=
    congrArg Place.interface hplace
  rw [interfaceFault?_eq_erase, interfaceFault?_eq_erase, hinterface]
  apply findSome?_congr
  intro message _
  exact messageFault?_redocumented h hplace message

theorem payloadQualifiers_redocumented :
    payloadQualifiers registry place = payloadQualifiers registry' place' := by
  have hinterface : place.interface.erase = place'.interface.erase :=
    congrArg Place.interface hplace
  have htype : typeOf registry place = typeOf registry' place' :=
    congrArg Typing.type (typing_redocumented h hplace)
  rw [payloadQualifiers_eq_erase, payloadQualifiers_eq_erase, hinterface]
  apply List.flatMap_congr
  intro message _
  rw [messageQualifiers, messageQualifiers, htype]

end Place

theorem namespaceFault?_redocumented (family : String) :
    namespaceFault? registry family = namespaceFault? registry' family := by
  have hfaults : (unit registry family).map (interfaceFault? registry) =
      (unit registry' family).map (interfaceFault? registry') := by
    apply map_eq_map_of_map_eq (unit_erase h family)
    intro place _ place' _ hplace
    exact interfaceFault?_redocumented h hplace
  have hfind := congrArg (List.findSome? id) hfaults
  rwa [List.findSome?_map, List.findSome?_map, Function.id_comp, Function.id_comp,
    ← namespaceFault?_eq_unit, ← namespaceFault?_eq_unit] at hfind

theorem unitQualifiers_redocumented (family : String) :
    (unit registry family).flatMap (payloadQualifiers registry) =
      (unit registry' family).flatMap (payloadQualifiers registry') := by
  rw [List.flatMap_def, List.flatMap_def]
  apply congrArg List.flatten
  apply map_eq_map_of_map_eq (unit_erase h family)
  intro place _ place' _ hplace
  exact payloadQualifiers_redocumented h hplace

end Redocumented

end Bindings
end Waybind
