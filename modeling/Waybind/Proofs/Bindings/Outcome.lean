import Waybind.Proofs.Bindings.Imports
import Waybind.Proofs.Registry.Frame

/-!
This module contains that bindings do not depend on what was generated before them. To generate those
of a namespace changes nothing but the globals of its own protocols, and these are either left as
they were or complete when the imports are written.
-/

namespace Waybind
namespace Bindings

open Lookup
open Registry (appendNew ofFamily Beside)
open Xml (Element)

section Frame

variable (place : Place)

theorem from_handleType (name : String) : From place.protocol (handleType place name) := by
  rw [handleType, bind_pure_comp]
  exact (from_findInterface place.protocol name).map _

theorem from_integerType (arg : Arg) (plain : Zig.TypeExpr) :
    From place.protocol (integerType place arg plain) := by
  unfold integerType
  split
  · rw [enumType, bind_pure_comp]
    exact (from_findEnum place _).map _
  · exact .pure _

theorem from_argType (arg : Arg) : From place.protocol (argType place arg .typed) := by
  unfold argType
  cases arg.type with
  | int | uint => exact from_integerType place arg _
  | fixed | string | fd => exact .pure _
  | newId =>
    cases arg.interface with
    | none => exact .pure _
    | some name => exact from_handleType place name
  | object =>
    cases arg.interface with
    | none => exact .pure _
    | some name => exact (from_handleType place name).map _
  | array =>
    cases arg.interface with
    | none => exact .pure _
    | some name => exact (from_handleType place name).map _

theorem from_conversion (arg : Arg) : From place.protocol (conversion place arg) := by
  unfold conversion integerConversion
  cases arg.type with
  | int | uint =>
    cases arg.enum with
    | none => exact .pure _
    | some name => exact (from_findEnum place name).bind fun _ => .pure _
  | fixed | string | fd | newId | object => exact .pure _
  | array =>
    cases arg.interface with
    | none => exact .pure _
    | some name => exact (from_handleType place name).map _

theorem from_returnType (request : Request) :
    From place.protocol (returnType place request) := by
  unfold returnType
  split
  · exact (from_handleType place _).map _
  · exact .pure _
  · exact .pure _

theorem from_messageVariant (defaults : Bool) (message : Message) :
    From place.protocol (messageVariant place defaults message) := by
  rw [messageVariant, bind_pure_comp]
  apply ConfinedTo.map
  apply ConfinedTo.mapM
  intro arg _
  rw [payloadField, bind_pure_comp]
  exact ((from_argType place arg).adapt _).map _

theorem from_decodedEvent (event : Event) : From place.protocol (decodedEvent place event) := by
  unfold decodedEvent
  split
  · exact .pure _
  · rw [bind_pure_comp]
    apply ConfinedTo.map
    apply ConfinedTo.mapM
    intro arg _
    rw [decodedField, bind_pure_comp]
    exact (((from_conversion place arg.1).map _).adapt _).map _

theorem from_decoder : From place.protocol (decoder place) := by
  rw [decoder, bind_pure_comp]
  apply ConfinedTo.map
  apply ConfinedTo.mapM
  intro event _
  rw [decoderArm, bind_pure_comp]
  exact (from_decodedEvent place event).map _

theorem from_eventUnion? : From place.protocol (eventUnion? place) := by
  unfold eventUnion?
  split
  · exact .pure _
  · apply ConfinedTo.map
    apply ConfinedTo.bind
    · exact .mapM fun event _ => from_messageVariant place false event.toMessage
    · intro _
      exact (from_decoder place).bind fun _ => .pure _

theorem from_requestUnion : From place.protocol (requestUnion place) := by
  rw [requestUnion, bind_pure_comp]
  apply ConfinedTo.map
  apply ConfinedTo.mapM
  intro request _
  apply (from_messageVariant place true request.toMessage).bind
  intro _
  exact ((from_returnType place request).adapt _).bind fun _ => .pure _

theorem from_interfaceText : From place.protocol (interfaceText place) := by
  apply (from_eventUnion? place).bind
  intro _
  exact (from_requestUnion place).bind fun _ => .pure _

abbrev EmitsWithin {α : Type} (numbers : List Nat) (m : EmitM α) : Prop :=
  ConfinedTo numbers (fun emission : Emission => emission.registry) m

theorem emitsWithin_lookup {α : Type} {numbers : List Nat} {l : LookupM Error α}
    (h : ConfinedTo numbers State.registry l) : EmitsWithin numbers (lookup l) := by
  intro emission
  exact h emission.toState

theorem emitsWithin_write (numbers : List Nat) (text : String) :
    EmitsWithin numbers (write text) := by
  intro emission
  exact .refl numbers _

theorem emitsWithin_writeProtocol (protocol : Protocol) :
    EmitsWithin [protocol.id] (writeProtocol protocol) := by
  apply (emitsWithin_lookup (confinedTo_notice _ _)).bind
  intro _
  apply (emitsWithin_write _ _).bind
  intro _
  apply ConfinedTo.forM
  intro interface _
  rw [writeInterface_eq]
  exact (emitsWithin_lookup (from_interfaceText ⟨protocol, interface⟩)).bind
    fun text => emitsWithin_write _ text

theorem emitsWithin_protocols (protocols : List Protocol) :
    EmitsWithin (protocols.map (·.id)) (protocols.forM writeProtocol) := by
  apply ConfinedTo.forM
  intro protocol hprotocol
  apply (emitsWithin_writeProtocol protocol).mono
  rw [List.cons_subset]
  exact ⟨List.mem_map_of_mem hprotocol, List.nil_subset _⟩

theorem beside_writeNamespace {reference : Registry} {emission : Emission}
    (hlike : reference.Like emission.registry) (runtimeDir family : String) :
    Beside ((ofFamily reference.protocols family).map (·.id)) emission.registry
      (exec (writeNamespace runtimeDir family) emission).2.registry := by
  have hbefore := emitsWithin_lookup (confinedTo_openNamespace Error
    ((ofFamily reference.protocols family).map (·.id)) family) emission
  have hrest : EmitsWithin ((ofFamily reference.protocols family).map (·.id)) (do
      (ofFamily reference.protocols family).forM writeProtocol
      let globals ← lookup (namespaceGlobals family)
      write (imports runtimeDir globals)) := by
    apply (emitsWithin_protocols _).bind
    intro _
    apply (emitsWithin_lookup (confinedTo_namespaceGlobals Error _ family)).bind
    intro globals
    exact emitsWithin_write _ _
  -- the protocols to write are known only after the namespace was opened
  obtain ⟨space, opened, hopen, hopened, -, -⟩ := exec_openNamespace hlike family
  rw [hopen] at hbefore
  rw [writeNamespace, exec_bind_ok hopen, exec_bind_ok (exec_get opened),
    hopened.coherent.protocolsOf_eq, hopened.protocols_eq]
  exact hbefore.trans (hrest opened)

end Frame

/--
The bindings of a namespace, or why they cannot be generated.
-/
def outcome (registry : Registry) (runtimeDir family : String) : Except Error String :=
  let emitted := emitNamespace registry runtimeDir family
  emitted.1.map fun _ => emitted.2.text

def emissions (registry : Registry) :
    List (String × String) → List (Except Error String) × Registry
  | [] => ([], registry)
  | (runtimeDir, family) :: calls =>
    let (outcomes, final) := emissions (emitNamespace registry runtimeDir family).2.registry calls
    (outcome registry runtimeDir family :: outcomes, final)

def determined (reference : Registry) (runtimeDir family : String) : Except Error String :=
  match namespaceFault? reference family with
  | some error => .error error
  | none => .ok (namespaceText reference family ++ imports runtimeDir
    (((unit reference family).flatMap (payloadQualifiers reference)).foldl appendNew []))

/--
A registry with the protocols and families of another one. What is noted of the references from a
protocol does not change the order in which they are needed, if all in its namespace are resolved.
-/
structure Undisturbed (reference registry : Registry) : Prop where
  like : reference.Like registry
  families_eq : registry.families = reference.families
  globals : ∀ family, namespaceFault? reference family = none →
    ∀ protocol ∈ ofFamily reference.protocols family,
      ((placesOf protocol).flatMap (payloadQualifiers reference)).foldl appendNew
          (registry.globals protocol.id) =
        ((placesOf protocol).flatMap (payloadQualifiers reference)).foldl appendNew []

theorem undisturbed_of_fresh {reference : Registry} (hcoherent : reference.Coherent)
    (hfresh : ∀ member ∈ reference.members, member.globals = []) :
    Undisturbed reference reference where
  like := ⟨hcoherent, rfl⟩
  families_eq := rfl
  globals := by
    intro family _ protocol _
    rw [globals_eq_nil hfresh]

theorem exec_writeNamespace_empty (registry : Registry) (runtimeDir family : String) :
    exec (writeNamespace runtimeDir family) ⟨⟨registry, #[]⟩, ""⟩ =
      emitNamespace registry runtimeDir family := by
  rfl

namespace Undisturbed

variable {reference registry : Registry} (hcoherent : reference.Coherent)
  (h : Undisturbed reference registry)

include hcoherent h

theorem globals_of_noteGlobals {family : String} {final : Registry}
    (hmembers : final.members = noteGlobals registry.members (namespaceUses reference family))
    (hfault : namespaceFault? reference family = none) :
    ∀ protocol ∈ ofFamily reference.protocols family, final.globals protocol.id =
      ((placesOf protocol).flatMap (payloadQualifiers reference)).foldl appendNew [] := by
  intro protocol hprotocol
  rw [globals_noteGlobals hcoherent h.like hmembers hprotocol, h.globals family hfault protocol
    hprotocol]

theorem outcome_eq (runtimeDir family : String) :
    outcome registry runtimeDir family = determined reference runtimeDir family := by
  have hlike : reference.Like (⟨⟨registry, #[]⟩, ""⟩ : Emission).registry := h.like
  obtain ⟨hfinal, hexec⟩ := exec_writeNamespace hcoherent hlike runtimeDir family
  rw [exec_writeNamespace_empty] at hfinal hexec
  unfold outcome determined
  simp only
  cases hfault : namespaceFault? reference family with
  | some error =>
    rw [hfault] at hexec
    rw [hexec]
    rfl
  | none =>
    rw [hfault] at hexec
    obtain ⟨hrun, htext, hmembers⟩ := hexec
    have hglobals := h.globals_of_noteGlobals hcoherent hmembers hfault
    rw [hrun, htext, globalsOf_eq_of_globals hfinal hglobals, String.empty_append]
    rfl

theorem step (runtimeDir family : String) :
    Undisturbed reference (emitNamespace registry runtimeDir family).2.registry := by
  have hlike : reference.Like (⟨⟨registry, #[]⟩, ""⟩ : Emission).registry := h.like
  obtain ⟨hfinal, hexec⟩ := exec_writeNamespace hcoherent hlike runtimeDir family
  have hbeside := beside_writeNamespace hlike runtimeDir family
  rw [exec_writeNamespace_empty] at hfinal hexec hbeside
  refine ⟨hfinal, hbeside.families_eq.trans h.families_eq, ?_⟩
  intro other hother protocol hprotocol
  by_cases hfamily : other = family
  · -- the globals are complete by now, so that noting the references again adds nothing
    subst hfamily
    rw [hother] at hexec
    have hglobals := h.globals_of_noteGlobals hcoherent hexec.2.2 hother protocol hprotocol
    rw [hglobals, foldl_appendNew_of_subset]
    intro used hused
    rw [mem_foldl_appendNew]
    exact .inr hused
  · -- a protocol of another family is left alone, also if writing failed halfway
    have hnumber : protocol.id ∉ (ofFamily reference.protocols family).map (·.id) := by
      intro hmem
      obtain ⟨own, hown, hid⟩ := List.mem_map.mp hmem
      obtain ⟨hown, hownFamily⟩ := List.mem_filter.mp hown
      obtain ⟨hprotocol, hotherFamily⟩ := List.mem_filter.mp hprotocol
      have hsame := hcoherent.protocol?_id hown
      rw [hid, hcoherent.protocol?_id hprotocol, Option.some.injEq] at hsame
      subst hsame
      exact hfamily ((beq_iff_eq.mp hotherFamily).symm.trans (beq_iff_eq.mp hownFamily))
    have hglobals := h.globals other hother protocol hprotocol
    rwa [Registry.globals, ← hbeside.members_eq protocol.id hnumber] at hglobals

theorem run (calls : List (String × String)) :
    (emissions registry calls).1 = calls.map (fun call => determined reference call.1 call.2)
      ∧ Undisturbed reference (emissions registry calls).2 := by
  induction calls generalizing registry with
  | nil => exact ⟨rfl, h⟩
  | cons call calls ih =>
    obtain ⟨runtimeDir, family⟩ := call
    obtain ⟨houtcomes, hfinal⟩ := ih (h.step hcoherent runtimeDir family)
    refine ⟨?_, hfinal⟩
    rw [List.map_cons, ← houtcomes, ← h.outcome_eq hcoherent]
    rfl

end Undisturbed

/--
What comes of generating the bindings of namespaces does not depend on what was generated before, and
neither do the families.
-/
theorem emissions_eq_map_outcome (documents : List Element) (calls : List (String × String)) :
    let fresh := Registry.after (documents.map .add)
    (emissions fresh calls).1 = calls.map (fun call => outcome fresh call.1 call.2)
      ∧ (emissions fresh calls).2.families = fresh.families := by
  intro fresh
  have hcoherent : fresh.Coherent := Registry.coherent_after _
  have hfresh := undisturbed_of_fresh hcoherent (globals_after_add documents)
  obtain ⟨houtcomes, hfinal⟩ := hfresh.run hcoherent calls
  refine ⟨?_, hfinal.families_eq⟩
  rw [houtcomes]
  apply List.map_congr_left
  intro call _
  exact (hfresh.outcome_eq hcoherent call.1 call.2).symm

end Bindings
end Waybind
