import Mathlib.Data.List.Perm.Basic
import Waybind.Proofs.Bindings.Namespace

/-!
This module contains the registries that can be reached from the empty one, by adding documents,
looking things up and generating bindings in any order. All of them are consistent.
-/

namespace Waybind

open Xml (Element)

namespace Registry

inductive Action where
  | add (root : Element)
  | openNamespace (family : String)
  | findInterface (protocol : Nat) (name : String)
  | findEnum (interface : InterfaceId) (name : String)
  | writeNamespace (runtimeDir family : String)

def afterLookup {α : Type} (registry : Registry) (m : LookupM Lookup.Error α) : Registry :=
  (exec m ⟨registry, #[]⟩).2.registry

/--
The registry after an action, whether it succeeds or fails. A document that is refused leaves it as
it is, and nothing is looked up from a place that does not exist.
-/
def step (registry : Registry) (action : Action) : Registry :=
  match action with
  | .add root =>
    match registry.add root with
    | .ok (_, registry) => registry
    | .error _ => registry
  | .openNamespace family => registry.afterLookup (Lookup.openNamespace family)
  | .findInterface number name =>
    match registry.protocol? number with
    | some protocol => registry.afterLookup (Lookup.findInterface protocol name)
    | none => registry
  | .findEnum id name =>
    match registry.protocol? id.protocol, registry.interface? id with
    | some protocol, some interface =>
      registry.afterLookup (Lookup.findEnum ⟨protocol, interface⟩ name)
    | _, _ => registry
  | .writeNamespace runtimeDir family =>
    (Bindings.emitNamespace registry runtimeDir family).2.registry

def after (actions : List Action) : Registry :=
  actions.foldl step empty

theorem add_eq_ok_iff (registry registry' : Registry) (root : Element) (protocol : Protocol) :
    registry.add root = .ok (protocol, registry') ↔
      Protocol.ofElement root registry.members.length = .ok protocol
        ∧ registry.register protocol = registry' := by
  simp [add]

theorem step_add (registry : Registry) (root : Element) :
    registry.step (.add root) =
      match Protocol.ofElement root registry.members.length with
      | .ok protocol => registry.register protocol
      | .error _ => registry := by
  simp only [step, add]
  cases Protocol.ofElement root registry.members.length with
  | ok protocol => rfl
  | error error => rfl

theorem after_append (actions : List Action) (action : Action) :
    after (actions ++ [action]) = (after actions).step action := by
  rw [after, List.foldl_append]
  rfl

theorem interface?_eq_some_iff (registry : Registry) (id : InterfaceId) (interface : Interface) :
    registry.interface? id = some interface ↔
      ∃ protocol, registry.protocol? id.protocol = some protocol
        ∧ protocol.interfaces.at? id.index = some interface := by
  rw [interface?, Option.bind_eq_bind, Option.bind_eq_some_iff]

section Step

variable {registry : Registry} (h : registry.Coherent)

include h

theorem Coherent.like_afterLookup {α : Type} {m : LookupM Lookup.Error α} {P : α → Prop}
    {uses : α → List (Nat × String)} (hfinds : Lookup.Finds registry m P uses) :
    registry.Like (registry.afterLookup m) := by
  rcases hfinds with ⟨error, hfails⟩ | ⟨a, -, hyields⟩
  · exact (hfails ⟨registry, #[]⟩ ⟨h, rfl⟩).1
  · exact (hyields ⟨registry, #[]⟩ ⟨h, rfl⟩).1

theorem Coherent.step_cases (action : Action) :
    (∃ root protocol, action = .add root
        ∧ Protocol.ofElement root registry.members.length = .ok protocol
        ∧ registry.step action = registry.register protocol)
      ∨ registry.Like (registry.step action) := by
  have hlike : registry.Like registry := ⟨h, rfl⟩
  cases action with
  | add root =>
    rw [step_add]
    split
    · next protocol hread => exact .inl ⟨root, protocol, rfl, hread, rfl⟩
    · exact .inr hlike
  | openNamespace family =>
    right
    exact ⟨h.touch family, registry.protocols_touch family⟩
  | findInterface number name =>
    right
    simp only [Registry.step]
    split
    · next protocol hprotocol =>
      have hmem := (mem_protocols_iff registry protocol).mpr ⟨number, hprotocol⟩
      exact h.like_afterLookup (Lookup.finds_findInterface h hmem name)
    · exact hlike
  | findEnum id name =>
    right
    simp only [Registry.step]
    split
    · next protocol interface hprotocol hinterface =>
      obtain ⟨protocol', hprotocol', hindex⟩ :=
        (interface?_eq_some_iff registry id interface).mp hinterface
      rw [hprotocol, Option.some.injEq] at hprotocol'
      subst hprotocol'
      refine h.like_afterLookup (Lookup.finds_findEnum h ⟨?_, ?_⟩ name)
      · exact (mem_protocols_iff registry protocol).mpr ⟨id.protocol, hprotocol⟩
      · exact (Table.mem_values_iff _ interface).mpr ⟨id.index, hindex⟩
    · exact hlike
  | writeNamespace runtimeDir family =>
    right
    exact (Bindings.exec_writeNamespace h hlike runtimeDir family).1

theorem Coherent.step (action : Action) : (registry.step action).Coherent := by
  rcases h.step_cases action with ⟨root, protocol, -, hread, hstep⟩ | hlike
  · rw [hstep]
    exact h.register (Protocol.built_of_ofElement hread)
  · exact hlike.coherent

end Step

theorem coherent_after (actions : List Action) : (after actions).Coherent := by
  induction actions using List.reverseRecOn with
  | nil => exact coherent_empty
  | append_singleton actions action ih =>
    rw [after, List.foldl_append]
    exact ih.step action

theorem exists_document_of_mem (actions : List Action) {protocol : Protocol}
    (h : protocol ∈ (after actions).protocols) :
    ∃ root, .add root ∈ actions ∧ Protocol.ofElement root protocol.id = .ok protocol := by
  induction actions using List.reverseRecOn with
  | nil => cases h
  | append_singleton actions action ih =>
    have hold (hmem : protocol ∈ (after actions).protocols) :
        ∃ root, .add root ∈ actions ++ [action]
          ∧ Protocol.ofElement root protocol.id = .ok protocol := by
      obtain ⟨root, hroot, hread⟩ := ih hmem
      exact ⟨root, List.mem_append_left _ hroot, hread⟩
    rw [after_append] at h
    rcases (coherent_after actions).step_cases action with ⟨root, added, rfl, hread, hstep⟩ | hlike
    · rw [hstep, protocols_register, List.mem_append, List.mem_singleton] at h
      rcases h with hmem | rfl
      · exact hold hmem
      · refine ⟨root, by simp, ?_⟩
        rw [(Protocol.built_of_ofElement hread).id_eq]
        exact hread
    · rw [hlike.protocols_eq] at h
      exact hold h

/--
What can be relied on in a registry: whatever is stored as the place of something leads to it, and
the namespaces part the protocols by their families.
-/
structure Consistent (registry : Registry) : Prop where
  protocol_id : ∀ number protocol, registry.protocol? number = some protocol → protocol.id = number
  interface_id : ∀ number protocol index interface, registry.protocol? number = some protocol →
    protocol.interfaces.at? index = some interface →
      interface.id = ⟨number, index⟩ ∧ registry.interface? interface.id = some interface
        ∧ protocol.interfaces.nameAt? index = some interface.fullName
        ∧ protocol.interfaces.get? interface.fullName = some interface
  /-- An argument leads back to the message it is in. -/
  arg_parent : ∀ number protocol index interface kind position message, ∀ arg ∈ message.args,
    registry.protocol? number = some protocol →
    protocol.interfaces.at? index = some interface →
    interface.message? kind position = some message →
      arg.parent = ⟨⟨number, index⟩, kind, position⟩
        ∧ registry.interface? arg.parent.interface = some interface
        ∧ registry.message? arg.parent = some message
        ∧ interface.messageName? arg.parent.kind arg.parent.index = some message.name
  namespace_key : ∀ key space, (key, space) ∈ registry.namespaces.entries →
    space.family = key ∧ registry.namespaces.get? key = some space
  /-- Every protocol is in one namespace, and nothing else is in any. -/
  namespace_once : (registry.namespaces.values.flatMap (·.protocols)).Perm
    (List.range registry.members.length)
  namespace_family : ∀ space ∈ registry.namespaces.values, ∀ number ∈ space.protocols,
    ∃ protocol, registry.protocol? number = some protocol ∧ protocol.family = space.family
  namespace_ascending : ∀ space ∈ registry.namespaces.values, space.protocols.Pairwise (· < ·)
  interfaces_ne : ∀ protocol ∈ registry.protocols, protocol.interfaces.values ≠ []
  protocol_family : ∀ protocol ∈ registry.protocols,
    protocol.family ≠ "" ∧ '_' ∉ protocol.family.toList
      ∧ ∀ interface ∈ protocol.interfaces.values, interface.family = protocol.family
  /-- Globals are other families that there are protocols of, each one once. -/
  globals : ∀ number protocol, registry.protocol? number = some protocol →
    (registry.globals number).Nodup ∧ ∀ family ∈ registry.globals number,
      family ≠ protocol.family ∧ ∃ other ∈ registry.protocols, other.family = family

section Consistent

variable {registry : Registry} (h : registry.Coherent)

include h

theorem Coherent.arg_parent {number index position : Nat} {protocol : Protocol}
    {interface : Interface} {kind : MessageKind} {message : Message} {arg : Arg}
    (harg : arg ∈ message.args) (hprotocol : registry.protocol? number = some protocol)
    (hinterface : protocol.interfaces.at? index = some interface)
    (hmessage : interface.message? kind position = some message) :
    arg.parent = ⟨⟨number, index⟩, kind, position⟩
      ∧ registry.interface? arg.parent.interface = some interface
      ∧ registry.message? arg.parent = some message
      ∧ interface.messageName? arg.parent.kind arg.parent.index = some message.name := by
  have hbuilt := (h.built number protocol hprotocol).interface index interface hinterface
  obtain ⟨hname, hparent⟩ := hbuilt.1.message kind position message hmessage
  have hplace : registry.interface? ⟨number, index⟩ = some interface :=
    (interface?_eq_some_iff registry _ interface).mpr ⟨protocol, hprotocol, hinterface⟩
  rw [hparent arg harg]
  refine ⟨rfl, hplace, ?_, hname⟩
  rw [message?, Option.bind_eq_bind, Option.bind_eq_some_iff]
  exact ⟨interface, hplace, hmessage⟩

theorem Coherent.mem_namespace {space : Namespace} (hspace : space ∈ registry.namespaces.values) :
    space.family ∈ registry.namespaces.names
      ∧ space.protocols = (ofFamily registry.protocols space.family).map (·.id) := by
  obtain ⟨⟨key, space'⟩, hentry, rfl⟩ := List.mem_map.mp hspace
  have hnamespace := h.namespaces key space' hentry
  have hkey : space'.family = key := by rw [hnamespace]
  refine ⟨?_, ?_⟩
  · rw [hkey]
    exact List.mem_map_of_mem hentry
  · rw [hkey, hnamespace]

theorem Coherent.namespace_ascending {space : Namespace}
    (hspace : space ∈ registry.namespaces.values) : space.protocols.Pairwise (· < ·) := by
  rw [(h.mem_namespace hspace).2]
  exact h.pairwise_id_ofFamily space.family

theorem Coherent.namespace_family {space : Namespace}
    (hspace : space ∈ registry.namespaces.values) {number : Nat}
    (hnumber : number ∈ space.protocols) :
    ∃ protocol, registry.protocol? number = some protocol ∧ protocol.family = space.family := by
  rw [(h.mem_namespace hspace).2] at hnumber
  obtain ⟨protocol, hprotocol, rfl⟩ := List.mem_map.mp hnumber
  obtain ⟨hmem, hfamily⟩ := List.mem_filter.mp hprotocol
  exact ⟨protocol, h.protocol?_id hmem, beq_iff_eq.mp hfamily⟩

theorem Coherent.mem_namespaces_iff (number : Nat) :
    number ∈ registry.namespaces.values.flatMap (·.protocols) ↔
      number < registry.members.length := by
  rw [← List.mem_range, ← h.map_id, List.mem_flatMap]
  constructor
  · rintro ⟨space, hspace, hnumber⟩
    rw [(h.mem_namespace hspace).2] at hnumber
    exact List.map_subset _ (List.filter_subset_self _) hnumber
  · intro hnumber
    obtain ⟨protocol, hprotocol, rfl⟩ := List.mem_map.mp hnumber
    obtain ⟨⟨key, space⟩, hentry, hkey⟩ := List.mem_map.mp (h.family_mem protocol hprotocol)
    refine ⟨space, List.mem_map_of_mem hentry, ?_⟩
    rw [h.namespaces key space hentry]
    apply List.mem_map_of_mem
    exact List.mem_filter.mpr ⟨hprotocol, beq_iff_eq.mpr hkey.symm⟩

theorem Coherent.map_family :
    registry.namespaces.values.map (·.family) = registry.namespaces.names := by
  rw [Table.values, List.map_map]
  apply List.map_congr_left
  rintro ⟨key, space⟩ hentry
  rw [Function.comp_apply, h.namespaces key space hentry]

theorem Coherent.nodup_namespaces : (registry.namespaces.values.flatMap (·.protocols)).Nodup := by
  have hfamilies : registry.namespaces.values.Pairwise (·.family ≠ ·.family) := by
    rw [← List.pairwise_map, h.map_family]
    exact h.names_nodup
  rw [List.nodup_flatMap]
  refine ⟨fun space hspace => (h.namespace_ascending hspace).nodup, ?_⟩
  -- a protocol in two namespaces would be of both families
  refine hfamilies.imp_of_mem ?_
  intro space space' hspace hspace' hne number hnumber hnumber'
  obtain ⟨protocol, hprotocol, hfamily⟩ := h.namespace_family hspace hnumber
  obtain ⟨protocol', hprotocol', hfamily'⟩ := h.namespace_family hspace' hnumber'
  rw [hprotocol, Option.some.injEq] at hprotocol'
  subst hprotocol'
  exact hne (hfamily.symm.trans hfamily')

theorem Coherent.namespace_once : (registry.namespaces.values.flatMap (·.protocols)).Perm
    (List.range registry.members.length) := by
  rw [List.perm_ext_iff_of_nodup h.nodup_namespaces List.nodup_range]
  intro number
  rw [h.mem_namespaces_iff, List.mem_range]

theorem Coherent.consistent : registry.Consistent where
  protocol_id number protocol hprotocol := (h.built number protocol hprotocol).id_eq
  interface_id := by
    intro number protocol index interface hprotocol hinterface
    have hprotocolBuilt := h.built number protocol hprotocol
    obtain ⟨hbuilt, -, hname⟩ := hprotocolBuilt.interface index interface hinterface
    refine ⟨hbuilt.id_eq, ?_, hname, ?_⟩
    · rw [hbuilt.id_eq]
      exact (interface?_eq_some_iff registry _ interface).mpr ⟨protocol, hprotocol, hinterface⟩
    · exact Table.get?_of_at? hprotocolBuilt.names_nodup hname hinterface
  arg_parent _ _ _ _ _ _ _ _ harg hprotocol hinterface hmessage :=
    h.arg_parent harg hprotocol hinterface hmessage
  namespace_key := by
    intro key space hentry
    refine ⟨?_, (Table.get?_eq_some_iff h.names_nodup key space).mpr hentry⟩
    rw [h.namespaces key space hentry]
  namespace_once := h.namespace_once
  namespace_family _ hspace _ hnumber := h.namespace_family hspace hnumber
  namespace_ascending _ hspace := h.namespace_ascending hspace
  interfaces_ne := by
    intro protocol hprotocol
    exact (h.built_of_mem hprotocol).interfaces_ne
  protocol_family := by
    intro protocol hprotocol
    have hbuilt := h.built_of_mem hprotocol
    exact ⟨hbuilt.family_ne.1, hbuilt.family_ne.2, fun _ hmem => hbuilt.family_eq hmem⟩
  globals := by
    intro number protocol hprotocol
    obtain ⟨member, hmember, rfl⟩ := (protocol?_eq_some_iff _ _ _).mp hprotocol
    have hcoherent := h.members member (List.mem_of_getElem? hmember)
    rw [Registry.globals, hmember]
    refine ⟨hcoherent.nodup, ?_⟩
    intro family hfamily
    exact ⟨fun heq => hcoherent.foreign (heq ▸ hfamily), hcoherent.known family hfamily⟩

end Consistent

theorem consistent_after (actions : List Action) : (after actions).Consistent :=
  (coherent_after actions).consistent

end Registry

namespace Bindings

open Lookup

theorem exists_message?_of_mem {interface : Interface} {message : Message}
    (h : message ∈ messages interface) :
    ∃ kind position, interface.message? kind position = some message := by
  rcases List.mem_append.mp h with h | h
  · obtain ⟨event, hevent, rfl⟩ := List.mem_map.mp h
    obtain ⟨position, hposition⟩ := (Table.mem_values_iff _ _).mp hevent
    exact ⟨.event, position, by rw [Interface.message?, hposition, Option.map_some]⟩
  · obtain ⟨request, hrequest, rfl⟩ := List.mem_map.mp h
    obtain ⟨position, hposition⟩ := (Table.mem_values_iff _ _).mp hrequest
    exact ⟨.request, position, by rw [Interface.message?, hposition, Option.map_some]⟩

theorem parent_of_arg {registry : Registry} (hcoherent : registry.Coherent) {place : Place}
    (hplace : Registered registry place) {message : Message}
    (hmessage : message ∈ messages place.interface) {arg : Arg} (harg : arg ∈ message.args) :
    registry.protocol? arg.parent.interface.protocol = some place.protocol
      ∧ registry.interface? arg.parent.interface = some place.interface
      ∧ registry.message? arg.parent = some message
      ∧ place.interface.messageName? arg.parent.kind arg.parent.index = some message.name := by
  obtain ⟨number, hnumber⟩ := (Registry.mem_protocols_iff _ _).mp hplace.protocol_mem
  obtain ⟨index, hindex⟩ := (Table.mem_values_iff _ _).mp hplace.interface_mem
  obtain ⟨kind, position, hposition⟩ := exists_message?_of_mem hmessage
  obtain ⟨hparent, hlinks⟩ := hcoherent.arg_parent harg hnumber hindex hposition
  refine ⟨?_, hlinks⟩
  rw [hparent]
  exact hnumber

end Bindings
end Waybind
