import Waybind.Proofs.Bindings.Correspondence
import Waybind.Proofs.Registry.Extension

/-!
This module contains that further documents change nothing about what could be found or generated
before, except in the families that they are of.
-/

namespace Waybind
namespace Bindings

open Lookup
open Registry (appendNew ofFamily)
open Xml (Element)

structure Typing.AgreeOn (interface : Interface) (typing typing' : Typing) : Prop where
  type : ∀ message ∈ messages interface, ∀ arg ∈ message.args, typing.type arg = typing'.type arg
  conversion : ∀ event ∈ interface.events.values, ∀ arg ∈ event.args,
    typing.conversion arg = typing'.conversion arg
  result : ∀ request ∈ interface.requests.values, typing.result request = typing'.result request

theorem Typing.Holds.agreeOn {typing typing' : Typing} {registry : Registry} {place : Place}
    (h : typing.Holds registry place) (h' : typing'.Holds registry place) :
    Typing.AgreeOn place.interface typing typing' where
  type message hmessage arg harg :=
    Except.ok.inj
      ((h.type message hmessage arg harg).symm.trans (h'.type message hmessage arg harg))
  conversion event hevent arg harg :=
    Except.ok.inj
      ((h.conversion event hevent arg harg).symm.trans (h'.conversion event hevent arg harg))
  result request hrequest :=
    Except.ok.inj ((h.result request hrequest).symm.trans (h'.result request hrequest))

namespace Typing.AgreeOn

variable {interface : Interface} {typing typing' : Typing} (h : AgreeOn interface typing typing')

include h

theorem variant {message : Message} (hmessage : message ∈ messages interface) (defaults : Bool) :
    typing.variant defaults message = typing'.variant defaults message := by
  have hfields : message.args.map (typing.field defaults) =
      message.args.map (typing'.field defaults) := by
    apply List.map_congr_left
    intro arg harg
    rw [Typing.field, Typing.field, h.type message hmessage arg harg]
  rw [Typing.variant, Typing.variant, hfields]

theorem decodedEvent {event : Event} (hevent : event ∈ interface.events.values) :
    typing.decodedEvent event = typing'.decodedEvent event := by
  have hfields : event.args.zipIdx.map typing.decodedField =
      event.args.zipIdx.map typing'.decodedField := by
    apply List.map_congr_left
    intro arg harg
    have hmem := List.fst_mem_of_mem_zipIdx harg
    rw [Typing.decodedField, Typing.decodedField, h.conversion event hevent arg.1 hmem]
  rw [Typing.decodedEvent, Typing.decodedEvent, hfields]

theorem eventUnion : typing.eventUnion interface = typing'.eventUnion interface := by
  have hvariants : (interface.events.values.map fun event =>
      typing.variant false event.toMessage) =
        interface.events.values.map fun event => typing'.variant false event.toMessage := by
    apply List.map_congr_left
    intro event hevent
    exact h.variant (List.mem_append_left _ (List.mem_map_of_mem hevent)) false
  have harms : (interface.events.values.map fun event =>
      (toString event.opcode.toNat, typing.decodedEvent event)) =
        interface.events.values.map fun event =>
          (toString event.opcode.toNat, typing'.decodedEvent event) := by
    apply List.map_congr_left
    intro event hevent
    rw [h.decodedEvent hevent]
  rw [Typing.eventUnion, Typing.eventUnion, Typing.decoder, Typing.decoder, hvariants, harms]

theorem requestUnion : typing.requestUnion interface = typing'.requestUnion interface := by
  have hrequests : interface.requests.values.map typing.requestVariant =
      interface.requests.values.map typing'.requestVariant := by
    apply List.map_congr_left
    intro request hrequest
    have hmessage : request.toMessage ∈ messages interface :=
      List.mem_append_right _ (List.mem_map_of_mem hrequest)
    rw [Typing.requestVariant, Typing.requestVariant, h.variant hmessage true,
      h.result request hrequest]
  rw [Typing.requestUnion, Typing.requestUnion, hrequests]

theorem text : typing.text interface = typing'.text interface := by
  rw [Typing.text, Typing.text, Typing.eventUnion?, Typing.eventUnion?, h.eventUnion,
    h.requestUnion]

end Typing.AgreeOn

section Extension

variable {registry extended : Registry} (h : registry.Extends extended)

include h

theorem corresponds_extend (place : Place) : Corresponds False registry extended place place where
  interface := .refl _
  findInterface := by
    intro name
    cases hfound : eval registry (findInterface place.protocol name) with
    | error error => exact False.elim
    | ok found => exact ⟨found, eval_findInterface_extend h hfound, .refl found⟩
  findEnum := by
    intro name
    cases hfound : eval registry (findEnum place name) with
    | error error => exact False.elim
    | ok found => exact ⟨found, eval_findEnum_extend h hfound, .refl found⟩

theorem unresolved?_extend {place : Place} {arg : Arg}
    (hresolved : unresolved? registry place arg = none) :
    unresolved? extended place arg = none := by
  have hfollows := (corresponds_extend h place).argType arg
  rw [← fault?_argType, fault?] at hresolved ⊢
  cases htype : eval registry (argType place arg .typed) with
  | error error =>
    rw [htype] at hresolved
    cases hresolved
  | ok type => rw [hfollows.eq_ok htype]

section Place

variable {place : Place} (hplace : Registered registry place)
  (hfault : interfaceFault? registry place = none)

theorem interfaceFault?_extend (hfault : interfaceFault? registry place = none) :
    interfaceFault? extended place = none := by
  rw [interfaceFault?, List.findSome?_eq_none_iff] at hfault ⊢
  intro message hmessage
  rw [messageFault?, List.findSome?_eq_none_iff]
  intro arg harg
  rw [argFault?, unresolved?_extend h (unresolved?_eq_none (hfault message hmessage) arg harg),
    Option.map_none]

include hplace hfault

theorem agreeOn_extend :
    Typing.AgreeOn place.interface (typing registry place) (typing extended place) := by
  have hholds := holds_typing h.coherent hplace hfault
  have hholds' := holds_typing h.coherent' (h.registered hplace) (interfaceFault?_extend h hfault)
  exact ((corresponds_extend h place).holds rfl hholds).agreeOn hholds'

theorem payloadQualifiers_extend :
    payloadQualifiers extended place = payloadQualifiers registry place := by
  have hagree := agreeOn_extend h hplace hfault
  apply List.flatMap_congr
  intro message hmessage
  apply List.flatMap_congr
  intro arg harg
  exact congrArg _ (hagree.type message hmessage arg harg).symm

end Place

theorem determined_extend {family : String}
    (hfamily : ofFamily extended.protocols family = ofFamily registry.protocols family)
    (hfault : namespaceFault? registry family = none) (runtimeDir : String) :
    determined extended runtimeDir family = determined registry runtimeDir family := by
  have hunit : unit extended family = unit registry family := by
    rw [unit, unit, hfamily]
  have hfaults : ∀ place ∈ unit registry family, interfaceFault? registry place = none := by
    intro place hplace
    exact interfaceFault?_eq_none hfault hplace
  have hfault' : namespaceFault? extended family = none := by
    rw [namespaceFault?_eq_unit, hunit, List.findSome?_eq_none_iff]
    intro place hplace
    exact interfaceFault?_extend h (hfaults place hplace)
  have htext : namespaceText extended family = namespaceText registry family := by
    rw [namespaceText, namespaceText, hfamily]
    apply congrArg String.join
    apply List.map_congr_left
    intro protocol hprotocol
    rw [protocolText, protocolText]
    apply congrArg (protocolComment protocol ++ ·)
    apply congrArg String.join
    apply List.map_congr_left
    intro place hplace
    have hmem : place ∈ unit registry family := List.mem_flatMap.mpr ⟨protocol, hprotocol, hplace⟩
    exact (agreeOn_extend h (registered_of_mem_unit hmem) (hfaults place hmem)).text.symm
  have hqualifiers : (unit extended family).flatMap (payloadQualifiers extended) =
      (unit registry family).flatMap (payloadQualifiers registry) := by
    rw [hunit]
    apply List.flatMap_congr
    intro place hplace
    exact payloadQualifiers_extend h (registered_of_mem_unit hplace) (hfaults place hplace)
  rw [determined, determined, hfault', hfault, htext, hqualifiers]

end Extension

theorem outcome_extend {documents more : List Element} {family : String}
    (hmore : ∀ root ∈ more, familyOf? root ≠ some family) {runtimeDir text : String}
    (htext : outcome (Registry.after (documents.map .add)) runtimeDir family = .ok text) :
    outcome (Registry.after ((documents ++ more).map .add)) runtimeDir family = .ok text := by
  have h := Registry.extends_after documents more
  have hfresh := undisturbed_of_fresh h.coherent (globals_after_add documents)
  have hfresh' := undisturbed_of_fresh h.coherent' (globals_after_add (documents ++ more))
  rw [hfresh.outcome_eq h.coherent] at htext
  rw [hfresh'.outcome_eq h.coherent', determined_extend h, htext]
  · exact Registry.ofFamily_after_append hmore
  · unfold determined at htext
    split at htext
    · cases htext
    · next hfault => exact hfault

theorem stable_under_further_documents (documents more : List Element) :
    let registry := Registry.after (documents.map .add)
    let extended := Registry.after ((documents ++ more).map .add)
    (∀ number protocol name interface, registry.protocol? number = some protocol →
      eval registry (findInterface protocol name) = .ok interface →
        extended.protocol? number = some protocol
          ∧ eval extended (findInterface protocol name) = .ok interface
          ∧ extended.interface? interface.id = some interface)
    ∧ (∀ id protocol interface name found, registry.protocol? id.protocol = some protocol →
      registry.interface? id = some interface →
      eval registry (findEnum ⟨protocol, interface⟩ name) = .ok found →
        extended.protocol? id.protocol = some protocol
          ∧ extended.interface? id = some interface
          ∧ eval extended (findEnum ⟨protocol, interface⟩ name) = .ok found
          ∧ extended.interface? found.1.id = some found.1)
    ∧ (∀ runtimeDir family text, (∀ root ∈ more, familyOf? root ≠ some family) →
      outcome registry runtimeDir family = .ok text →
        outcome extended runtimeDir family = .ok text) := by
  intro registry extended
  have h : registry.Extends extended := Registry.extends_after documents more
  refine ⟨?_, ?_, ?_⟩
  · intro number protocol name interface hprotocol hfound
    have hmem := (Registry.mem_protocols_iff registry protocol).mpr ⟨number, hprotocol⟩
    have hdeclared := (finds_findInterface h.coherent hmem name).of_eval h.coherent hfound
    refine ⟨h.protocol?_eq_some hprotocol, eval_findInterface_extend h hfound, ?_⟩
    exact h.interface?_eq_some (hdeclared.interface?_id h.coherent)
  · intro id protocol interface name found hprotocol hinterface hfound
    have hplace := Registry.registered_of_interface? hprotocol hinterface
    have hdeclared := (finds_findEnum h.coherent hplace name).of_eval h.coherent hfound
    refine ⟨h.protocol?_eq_some hprotocol, h.interface?_eq_some hinterface,
      eval_findEnum_extend h hfound, ?_⟩
    exact h.interface?_eq_some (hdeclared.interface?_id h.coherent)
  · intro runtimeDir family text hmore htext
    exact outcome_extend hmore htext

theorem outcome_dock_extended :
    ∃ text, outcome (Registry.after ([seatDocument, outputDocument, dockDocument].map .add)) "src"
        "ext" = .ok text
      ∧ outcome (Registry.after
        (([seatDocument, outputDocument, dockDocument] ++ [outputDocument]).map .add)) "src" "ext" =
          .ok text := by
  have hsome : (outcome (Registry.after
      ([seatDocument, outputDocument, dockDocument].map .add)) "src" "ext").toOption.isSome := by
    decide +kernel
  obtain ⟨text, htext⟩ := Option.isSome_iff_exists.mp hsome
  rw [Except.toOption_eq_some_iff] at htext
  have hfamily : familyOf? outputDocument ≠ some "ext" := by
    decide +kernel
  refine ⟨text, htext, ?_⟩
  exact (stable_under_further_documents [seatDocument, outputDocument, dockDocument]
    [outputDocument]).2.2 "src" "ext" text (List.forall_mem_singleton.mpr hfamily) htext

end Bindings
end Waybind
