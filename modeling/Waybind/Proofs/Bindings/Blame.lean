import Waybind.Proofs.Registry.Reachable

/-!
This module contains when generating the bindings of a namespace fails, and which argument is blamed
for it.
-/

namespace Waybind
namespace Bindings

open Lookup
open Registry (ofFamily)

structure Site where
  place : Place
  message : Message
  arg : Arg

/--
All arguments of a namespace in the order of the bindings: those of the protocols in the order of
their registration and of their interfaces in the order of declaration, and there those of events
before those of requests.
-/
def sites (registry : Registry) (family : String) : List Site :=
  (ofFamily registry.protocols family).flatMap fun protocol =>
    (placesOf protocol).flatMap fun place =>
      (messages place.interface).flatMap fun message => message.args.map (⟨place, message, ·⟩)

def Site.unresolved? (registry : Registry) (site : Site) : Option Lookup.Error :=
  Bindings.unresolved? registry site.place site.arg

def Site.error (site : Site) (cause : Lookup.Error) : Error :=
  .arg site.place.interface.fullName site.message.name site.arg.name cause

theorem mem_sites {registry : Registry} {family : String} {site : Site}
    (h : site ∈ sites registry family) :
    Registered registry site.place ∧ site.message ∈ messages site.place.interface
      ∧ site.arg ∈ site.message.args := by
  simp only [sites, placesOf, List.mem_flatMap, List.mem_map] at h
  obtain ⟨protocol, hprotocol, _, ⟨interface, hinterface, rfl⟩, message, hmessage, arg, harg, rfl⟩ :=
    h
  exact ⟨⟨List.mem_of_mem_filter hprotocol, hinterface⟩, hmessage, harg⟩

theorem findSome?_flatMap {α β γ : Type} (f : α → List β) (g : β → Option γ) (xs : List α) :
    (xs.flatMap f).findSome? g = xs.findSome? fun x => (f x).findSome? g := by
  induction xs with
  | nil => rfl
  | cons x xs ih =>
    rw [List.flatMap_cons, List.findSome?_append, ih, List.findSome?_cons]
    cases (f x).findSome? g with
    | none => rfl
    | some c => rfl

theorem namespaceFault?_eq (registry : Registry) (family : String) :
    namespaceFault? registry family =
      (sites registry family).findSome? fun site => (site.unresolved? registry).map site.error := by
  simp only [sites, findSome?_flatMap, List.findSome?_map]
  rfl

section Emit

variable {registry : Registry} (h : registry.Coherent) (runtimeDir family : String)

include h

theorem emitNamespace_eq :
    (emitNamespace registry runtimeDir family).1 =
      match namespaceFault? registry family with
      | some error => .error error
      | none => .ok () := by
  have hlike : registry.Like (⟨⟨registry, #[]⟩, ""⟩ : Emission).registry := ⟨h, rfl⟩
  have hexec := (exec_writeNamespace h hlike runtimeDir family).2
  cases hfault : namespaceFault? registry family with
  | some error =>
    rw [hfault] at hexec
    exact hexec
  | none =>
    rw [hfault] at hexec
    exact hexec.1

theorem emitNamespace_eq_error_iff (error : Error) :
    (emitNamespace registry runtimeDir family).1 = .error error ↔
      ∃ before site after cause, sites registry family = before ++ site :: after
        ∧ (∀ earlier ∈ before, earlier.unresolved? registry = none)
        ∧ site.unresolved? registry = some cause ∧ error = site.error cause := by
  have hfault : (emitNamespace registry runtimeDir family).1 = .error error ↔
      namespaceFault? registry family = some error := by
    rw [emitNamespace_eq h]
    cases namespaceFault? registry family with
    | some error => simp
    | none => simp
  -- the fault is that of the first site which has one
  rw [hfault, namespaceFault?_eq, List.findSome?_eq_some_iff]
  simp only [Option.map_eq_some_iff, Option.map_eq_none_iff]
  constructor
  · rintro ⟨before, site, after, hsites, ⟨cause, hcause, rfl⟩, hbefore⟩
    exact ⟨before, site, after, cause, hsites, hbefore, hcause, rfl⟩
  · rintro ⟨before, site, after, cause, hsites, hbefore, hcause, rfl⟩
    exact ⟨before, site, after, hsites, ⟨cause, hcause, rfl⟩, hbefore⟩

theorem exists_emitNamespace_eq_error_iff :
    (∃ error, (emitNamespace registry runtimeDir family).1 = .error error) ↔
      ∃ site ∈ sites registry family, ∃ cause, site.unresolved? registry = some cause := by
  constructor
  · rintro ⟨error, herror⟩
    obtain ⟨before, site, after, cause, hsites, -, hcause, -⟩ :=
      (emitNamespace_eq_error_iff h runtimeDir family error).mp herror
    exact ⟨site, by simp [hsites], cause, hcause⟩
  · rintro ⟨site, hsite, cause, hcause⟩
    rw [emitNamespace_eq h, namespaceFault?_eq]
    cases hfirst : (sites registry family).findSome?
        fun site => (site.unresolved? registry).map site.error with
    | some error => exact ⟨error, rfl⟩
    | none =>
      have hnone := List.findSome?_eq_none_iff.mp hfirst site hsite
      rw [hcause] at hnone
      cases hnone

theorem decoder_eq_ok {place : Place} (hplace : Registered registry place)
    {state state' : Lookup.State} (hlike : registry.Like state.registry)
    {variants : List (Zig.Variant Zig.Node)}
    (hvariants : exec (place.interface.events.values.mapM fun event =>
      messageVariant place false event.toMessage) state = (.ok variants, state')) :
    ∃ node, (exec (decoder place) state').1 = .ok node := by
  have hruns := runs_eventVariants h hplace
  cases hfault : place.interface.events.values.findSome? fun event =>
      messageFault? registry place event.toMessage with
  | some error =>
    rw [hfault] at hruns
    obtain ⟨-, hrun⟩ := hruns state hlike
    rw [hvariants] at hrun
    cases hrun
  | none =>
    rw [hfault] at hruns
    obtain ⟨hlike', -⟩ := hruns state hlike
    rw [hvariants] at hlike'
    obtain ⟨_, hyields, -⟩ := within_decoder h hplace (List.findSome?_eq_none_iff.mp hfault)
    exact ⟨_, (hyields state' hlike').2.1⟩

end Emit

theorem emitNamespace_blames_first_unresolved (actions : List Registry.Action)
    (runtimeDir family : String) :
    let registry := Registry.after actions
    let result := (emitNamespace registry runtimeDir family).1
    ((∃ error, result = .error error) ↔
      ∃ site ∈ sites registry family, ∃ cause, site.unresolved? registry = some cause)
    ∧ (∀ error, result = .error error ↔
      ∃ before site after cause, sites registry family = before ++ site :: after
        ∧ (∀ earlier ∈ before, earlier.unresolved? registry = none)
        ∧ site.unresolved? registry = some cause
        ∧ error = .arg site.place.interface.fullName site.message.name site.arg.name cause)
    ∧ (∀ site ∈ sites registry family,
      registry.interface? site.arg.parent.interface = some site.place.interface
        ∧ registry.message? site.arg.parent = some site.message
        ∧ site.place.interface.messageName? site.arg.parent.kind site.arg.parent.index =
          some site.message.name)
    ∧ (∀ name cause, result ≠ .error (.interface name cause))
    ∧ (∀ place, Registered registry place → ∀ notices variants state,
      exec (place.interface.events.values.mapM fun event =>
        messageVariant place false event.toMessage) ⟨registry, notices⟩ = (.ok variants, state) →
      ∃ node, (exec (decoder place) state).1 = .ok node) := by
  intro registry result
  have h : registry.Coherent := Registry.coherent_after actions
  refine ⟨exists_emitNamespace_eq_error_iff h runtimeDir family, ?_, ?_, ?_, ?_⟩
  · exact emitNamespace_eq_error_iff h runtimeDir family
  · intro site hsite
    obtain ⟨hplace, hmessage, harg⟩ := mem_sites hsite
    exact (parent_of_arg h hplace hmessage harg).2
  · intro name cause hinterface
    obtain ⟨_, _, _, _, _, _, _, herror⟩ :=
      (emitNamespace_eq_error_iff h runtimeDir family _).mp hinterface
    cases herror
  · intro place hplace notices variants state hvariants
    exact decoder_eq_ok h hplace ⟨h, rfl⟩ hvariants

end Bindings
end Waybind
