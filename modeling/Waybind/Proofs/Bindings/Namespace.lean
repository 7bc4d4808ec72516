import Waybind.Bindings.Namespace
import Waybind.Proofs.Bindings.Interface

/-!
This module contains how the bindings of namespaces are written: the texts of all interfaces one
after the other, up to the first reference that is unresolved.
-/

namespace Waybind
namespace Bindings

open Lookup
open Registry (appendNew ofFamily)

section Parts

theorem exec_write (text : String) (emission : Emission) :
    exec (write text) emission = (.ok (), { emission with text := emission.text ++ text }) := by
  rfl

theorem exec_lookup {α : Type} (l : LookupM Error α) (emission : Emission) :
    exec (lookup l) emission =
      ((exec l emission.toState).1, { emission with toState := (exec l emission.toState).2 }) := by
  rfl

theorem write_bind_write (text text' : String) :
    (write text >>= fun _ => write text') = write (text ++ text') := by
  apply exec_injective
  funext emission
  rw [exec_bind_ok (exec_write text emission), exec_write, exec_write, String.append_assoc]

theorem write_empty : write "" = pure () := by
  apply exec_injective
  funext emission
  rw [exec_write, String.append_empty, exec_pure]

theorem forM_write {α : Type} (text : α → String) (xs : List α) :
    (xs.forM fun x => write (text x)) = write (String.join (xs.map text)) := by
  induction xs with
  | nil => exact write_empty.symm
  | cons x xs ih =>
    have hcons : ((x :: xs).forM fun x => write (text x)) =
      (write (text x) >>= fun _ => xs.forM fun x => write (text x)) := rfl
    rw [hcons, ih, write_bind_write, List.map_cons, String.join_cons]

theorem optionForM_write {α : Type} (text : α → String) (x? : Option α) :
    (x?.forM fun x => write (text x)) = write ((x?.map text).getD "") := by
  cases x? with
  | none => exact write_empty.symm
  | some x => rfl

theorem lookup_bind {α β : Type} (l : LookupM Error α) (f : α → LookupM Error β) :
    lookup (l >>= f) = lookup l >>= fun a => lookup (f a) := by
  apply exec_injective
  funext emission
  rw [exec_lookup]
  rcases hl : exec l emission.toState with ⟨error | a, state⟩
  · rw [exec_bind_error hl, exec_bind_error ((exec_lookup l emission).trans (by rw [hl]))]
  · rw [exec_bind_ok hl, exec_bind_ok ((exec_lookup l emission).trans (by rw [hl])), exec_lookup]

theorem writeInterface_eq (place : Place) :
    writeInterface place = lookup (interfaceText place) >>= write := by
  rw [interfaceText, lookup_bind, bind_assoc]
  apply congrArg (lookup (eventUnion? place) >>= ·)
  funext event
  rw [lookup_bind, bind_assoc]
  apply congrArg (lookup (requestUnion place) >>= ·)
  funext request
  have hpure (text : String) : (lookup (pure text) >>= write) = write text := rfl
  have hopen : " = enum(u32) \x7b\n_,\n" = " = enum(u32) \x7b\n" ++ "_,\n" := rfl
  simp only [forM_write, optionForM_write, write_bind_write]
  rw [hpure, handleText, hopen]
  simp only [String.append_assoc]

end Parts

/--
On every registry with the protocols of `reference` a computation fails with `fault`, if that is
some error, and otherwise writes `text` and notes the references `uses`.
-/
def Writes (reference : Registry) (m : EmitM Unit) (fault : Option Error) (text : String)
    (uses : List (Nat × String)) : Prop :=
  ∀ emission, reference.Like emission.registry →
    reference.Like (exec m emission).2.registry ∧
      match fault with
      | some error => (exec m emission).1 = .error error
      | none => (exec m emission).1 = .ok () ∧ (exec m emission).2.text = emission.text ++ text
        ∧ (exec m emission).2.registry.members = noteGlobals emission.registry.members uses

section Rules

variable {reference : Registry} {m m' : EmitM Unit} {fault fault' : Option Error}
  {text text' : String} {uses uses' : List (Nat × String)}

theorem writes_write (text : String) : Writes reference (write text) none text [] := by
  intro emission hlike
  exact ⟨hlike, rfl, rfl, rfl⟩

theorem writes_lookup {α : Type} {l : LookupM Error α} {value : α}
    (h : Runs reference l fault value uses) {f : α → EmitM Unit}
    (h' : fault = none → Writes reference (f value) fault' text uses') :
    Writes reference (lookup l >>= f) (fault.or fault') text (uses ++ uses') := by
  intro emission hlike
  cases fault with
  | some error =>
    obtain ⟨hlike, hrun⟩ := h emission.toState hlike
    rw [exec_bind_error ((exec_lookup l emission).trans (Prod.ext hrun rfl))]
    exact ⟨hlike, rfl⟩
  | none =>
    obtain ⟨hlike, hrun, hmembers⟩ := h emission.toState hlike
    rw [exec_bind_ok ((exec_lookup l emission).trans (Prod.ext hrun rfl)), noteGlobals_append,
      ← hmembers]
    exact h' rfl _ hlike

theorem Writes.bind (h : Writes reference m fault text uses)
    (h' : Writes reference m' fault' text' uses') :
    Writes reference (m >>= fun _ => m') (fault.or fault') (text ++ text') (uses ++ uses') := by
  intro emission hlike
  obtain ⟨hlike, hrun⟩ := h emission hlike
  cases fault with
  | some error =>
    rw [exec_bind_error (Prod.ext hrun rfl)]
    exact ⟨hlike, rfl⟩
  | none =>
    obtain ⟨hrun, htext, hmembers⟩ := hrun
    rw [exec_bind_ok (Prod.ext hrun rfl), noteGlobals_append, ← hmembers, ← String.append_assoc,
      ← htext]
    exact h' _ hlike

theorem Writes.forM {α : Type} {f : α → EmitM Unit} {fault : α → Option Error} {text : α → String}
    {uses : α → List (Nat × String)} {xs : List α}
    (h : ∀ x ∈ xs, Writes reference (f x) (fault x) (text x) (uses x)) :
    Writes reference (xs.forM f) (xs.findSome? fault) (String.join (xs.map text))
      (xs.flatMap uses) := by
  induction xs with
  | nil =>
    intro emission hlike
    exact ⟨hlike, rfl, String.append_empty.symm, rfl⟩
  | cons x xs ih =>
    obtain ⟨hx, hxs⟩ := List.forall_mem_cons.mp h
    rw [← List.singleton_append, List.findSome?_append, List.findSome?_singleton,
      List.singleton_append, List.map_cons, String.join_cons, List.flatMap_cons]
    exact hx.bind (ih hxs)

end Rules

section Definitions

variable (reference : Registry)

def interfaceFault? (place : Place) : Option Error :=
  (messages place.interface).findSome? (messageFault? reference place)

def interfaceUses (place : Place) : List (Nat × String) :=
  (messages place.interface).flatMap (messageUses reference place)

def placesOf (protocol : Protocol) : List Place :=
  protocol.interfaces.values.map (⟨protocol, ·⟩)

def protocolText (protocol : Protocol) : String :=
  protocolComment protocol
    ++ String.join ((placesOf protocol).map fun place =>
      (typing reference place).text place.interface)

def namespaceFault? (family : String) : Option Error :=
  (ofFamily reference.protocols family).findSome? fun protocol =>
    (placesOf protocol).findSome? (interfaceFault? reference)

def namespaceUses (family : String) : List (Nat × String) :=
  (ofFamily reference.protocols family).flatMap fun protocol =>
    (placesOf protocol).flatMap (interfaceUses reference)

/--
The bindings of a namespace whose references are resolved, without the imports.
-/
def namespaceText (family : String) : String :=
  String.join ((ofFamily reference.protocols family).map (protocolText reference))

end Definitions

theorem exec_openNamespace {reference : Registry} {emission : Emission}
    (hlike : reference.Like emission.registry) (family : String) :
    ∃ space opened, exec (lookup (openNamespace family)) emission = (.ok space, opened)
      ∧ reference.Like opened.registry ∧ opened.text = emission.text
      ∧ opened.registry.members = emission.registry.members := by
  obtain ⟨hlike, hrun, hmembers⟩ := yields_openNamespace Error family emission.toState hlike
  exact ⟨_, _, (exec_lookup _ emission).trans (Prod.ext hrun rfl), hlike, rfl, hmembers⟩

theorem exec_namespaceGlobals (family : String) (emission : Emission) :
    exec (lookup (namespaceGlobals family)) emission =
      (.ok ((emission.registry.touch family).globalsOf family),
        { emission with registry := emission.registry.touch family }) := by
  rfl

section Lookups

variable {reference : Registry} (hcoherent : reference.Coherent)

include hcoherent

theorem writes_writeInterface {place : Place} (hplace : Registered reference place) :
    Writes reference (writeInterface place) (interfaceFault? reference place)
      ((typing reference place).text place.interface) (interfaceUses reference place) := by
  have h := writes_lookup (runs_interfaceText hcoherent hplace) (f := write) fun _ => writes_write _
  rwa [Option.or_none, List.append_nil, ← writeInterface_eq] at h

theorem writes_writeProtocol {protocol : Protocol} (hprotocol : protocol ∈ reference.protocols) :
    Writes reference (writeProtocol protocol)
      ((placesOf protocol).findSome? (interfaceFault? reference)) (protocolText reference protocol)
      ((placesOf protocol).flatMap (interfaceUses reference)) := by
  have hinterfaces : Writes reference
      (protocol.interfaces.values.forM fun interface => writeInterface ⟨protocol, interface⟩)
      ((placesOf protocol).findSome? (interfaceFault? reference))
      (String.join ((placesOf protocol).map fun place =>
        (typing reference place).text place.interface))
      ((placesOf protocol).flatMap (interfaceUses reference)) := by
    rw [placesOf, List.findSome?_map, List.map_map, List.flatMap_map]
    apply Writes.forM
    intro interface hinterface
    exact writes_writeInterface hcoherent ⟨hprotocol, hinterface⟩
  have hnotice : Runs reference (notice (.emitting protocol.name) : LookupM Error Unit)
      none () [] := yields_notice _
  exact writes_lookup hnotice fun _ => (writes_write (protocolComment protocol)).bind hinterfaces

theorem writes_protocols (family : String) :
    Writes reference ((ofFamily reference.protocols family).forM writeProtocol)
      (namespaceFault? reference family) (namespaceText reference family)
      (namespaceUses reference family) := by
  apply Writes.forM
  intro protocol hprotocol
  exact writes_writeProtocol hcoherent (List.mem_of_mem_filter hprotocol)

theorem exec_writeNamespace {emission : Emission} (hlike : reference.Like emission.registry)
    (runtimeDir family : String) :
    reference.Like (exec (writeNamespace runtimeDir family) emission).2.registry ∧
      match namespaceFault? reference family with
      | some error => (exec (writeNamespace runtimeDir family) emission).1 = .error error
      | none => (exec (writeNamespace runtimeDir family) emission).1 = .ok ()
        ∧ (exec (writeNamespace runtimeDir family) emission).2.text =
          emission.text ++ namespaceText reference family
            ++ imports runtimeDir
              ((exec (writeNamespace runtimeDir family) emission).2.registry.globalsOf family)
        ∧ (exec (writeNamespace runtimeDir family) emission).2.registry.members =
          noteGlobals emission.registry.members (namespaceUses reference family) := by
  obtain ⟨space, opened, hopen, hlike, htext, hmembers⟩ := exec_openNamespace hlike family
  obtain ⟨hlike', hwrites⟩ := writes_protocols hcoherent family opened hlike
  rw [writeNamespace, exec_bind_ok hopen, exec_bind_ok (exec_get opened),
    hlike.coherent.protocolsOf_eq, hlike.protocols_eq]
  cases hfault : namespaceFault? reference family with
  | some error =>
    rw [hfault] at hwrites
    rw [exec_bind_error (Prod.ext hwrites rfl)]
    exact ⟨hlike', rfl⟩
  | none =>
    rw [hfault] at hwrites
    obtain ⟨hrun, htext', hmembers'⟩ := hwrites
    rw [exec_bind_ok (Prod.ext hrun rfl), exec_bind_ok (exec_namespaceGlobals family _), ← htext,
      ← htext', ← hmembers, ← hmembers']
    refine ⟨⟨hlike'.coherent.touch family, ?_⟩, rfl, rfl, ?_⟩
    · exact (Registry.protocols_touch _ _).trans hlike'.protocols_eq
    · exact Registry.members_touch _ _

theorem emitNamespace_eq_ok {runtimeDir family : String} {emission : Emission}
    (h : emitNamespace reference runtimeDir family = (.ok (), emission)) :
    namespaceFault? reference family = none ∧ reference.Like emission.registry
      ∧ emission.text = namespaceText reference family
        ++ imports runtimeDir (emission.registry.globalsOf family)
      ∧ emission.registry.members =
        noteGlobals reference.members (namespaceUses reference family) := by
  have hlike : reference.Like (⟨⟨reference, #[]⟩, ""⟩ : Emission).registry := ⟨hcoherent, rfl⟩
  obtain ⟨hfinal, hexec⟩ := exec_writeNamespace hcoherent hlike runtimeDir family
  have hrun : exec (writeNamespace runtimeDir family) ⟨⟨reference, #[]⟩, ""⟩ = (.ok (), emission) :=
    h
  rw [hrun] at hfinal hexec
  cases hfault : namespaceFault? reference family with
  | some error =>
    rw [hfault] at hexec
    cases hexec
  | none =>
    rw [hfault] at hexec
    obtain ⟨-, htext, hmembers⟩ := hexec
    rw [String.empty_append] at htext
    exact ⟨rfl, hfinal, htext, hmembers⟩

end Lookups
end Bindings
end Waybind
