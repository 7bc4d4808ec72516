import Waybind.Proofs.Bindings.Imports

/-!
This module contains how the families part the protocols of a registry and their interfaces: each
one is in the unit of its own family, once, and in no other one.
-/

namespace Waybind

open Bindings (placesOf unit)

theorem Protocol.Built.map_interface_id {number : Nat} {protocol : Protocol}
    (h : protocol.Built number) :
    protocol.interfaces.values.map (·.id) =
      (List.range protocol.interfaces.values.length).map (InterfaceId.mk number) := by
  apply List.ext_getElem?
  intro index
  rw [List.getElem?_map, List.getElem?_map]
  cases hinterface : protocol.interfaces.values[index]? with
  | none =>
    have hlength := List.getElem?_eq_none_iff.mp hinterface
    rw [List.getElem?_eq_none (by rwa [List.length_range])]
    rfl
  | some interface =>
    have hlength := (List.getElem?_eq_some_iff.mp hinterface).1
    rw [List.getElem?_range hlength, Option.map_some, Option.map_some,
      (h.interface index interface hinterface).1.id_eq]

namespace Registry.Coherent

variable {registry : Registry} (h : registry.Coherent)

include h

theorem mem_families_iff (family : String) :
    family ∈ registry.families ↔ ∃ protocol ∈ registry.protocols, protocol.family = family := by
  rw [families, List.mem_map]
  constructor
  · rintro ⟨space, hspace, rfl⟩
    obtain ⟨hspace, hne⟩ := List.mem_filter.mp hspace
    rw [Bool.not_eq_true', List.isEmpty_eq_false_iff] at hne
    obtain ⟨number, hnumber⟩ := List.exists_mem_of_ne_nil _ hne
    obtain ⟨protocol, hprotocol, hfamily⟩ := h.namespace_family hspace hnumber
    exact ⟨protocol, (mem_protocols_iff registry protocol).mpr ⟨number, hprotocol⟩, hfamily⟩
  · rintro ⟨protocol, hprotocol, rfl⟩
    obtain ⟨⟨key, space⟩, hentry, hkey⟩ := List.mem_map.mp (h.family_mem protocol hprotocol)
    have hspace := h.namespaces key space hentry
    refine ⟨space, List.mem_filter.mpr ⟨List.mem_map_of_mem hentry, ?_⟩, ?_⟩
    · rw [Bool.not_eq_true', List.isEmpty_eq_false_iff, hspace]
      apply List.ne_nil_of_mem
      apply List.mem_map_of_mem
      exact List.mem_filter.mpr ⟨hprotocol, beq_iff_eq.mpr hkey.symm⟩
    · rw [hspace]
      exact hkey

theorem nodup_families : registry.families.Nodup := by
  have hsub : registry.families.Sublist (registry.namespaces.values.map (·.family)) :=
    List.filter_sublist.map _
  rw [h.map_family] at hsub
  exact h.names_nodup.sublist hsub

theorem nodup_protocols : registry.protocols.Nodup := by
  apply List.Nodup.of_map (·.id)
  rw [h.map_id]
  exact List.nodup_range

theorem perm_protocols :
    (registry.families.flatMap (ofFamily registry.protocols)).Perm registry.protocols := by
  rw [List.perm_ext_iff_of_nodup _ h.nodup_protocols]
  · intro protocol
    rw [List.mem_flatMap]
    constructor
    · rintro ⟨family, -, hprotocol⟩
      exact List.mem_of_mem_filter hprotocol
    · intro hprotocol
      refine ⟨protocol.family, (h.mem_families_iff _).mpr ⟨protocol, hprotocol, rfl⟩, ?_⟩
      exact List.mem_filter.mpr ⟨hprotocol, beq_self_eq_true _⟩
  · rw [List.nodup_flatMap]
    refine ⟨fun family _ => h.nodup_protocols.filter _, ?_⟩
    -- a protocol in two units would be of both families
    refine h.nodup_families.imp ?_
    intro family family' hne protocol hprotocol hprotocol'
    have hfamily := (List.mem_filter.mp hprotocol).2
    have hfamily' := (List.mem_filter.mp hprotocol').2
    rw [beq_iff_eq] at hfamily hfamily'
    exact hne (hfamily.symm.trans hfamily')

theorem perm_units :
    (registry.families.flatMap (unit registry)).Perm (registry.protocols.flatMap placesOf) := by
  have hunits : registry.families.flatMap (unit registry) =
      (registry.families.flatMap (ofFamily registry.protocols)).flatMap placesOf :=
    List.flatMap_assoc.symm
  rw [hunits]
  exact h.perm_protocols.flatMap_right _

theorem family_eq_of_mem_unit {family : String} {place : Place}
    (hplace : place ∈ unit registry family) : place.interface.family = family := by
  obtain ⟨protocol, hprotocol, hplace⟩ := List.mem_flatMap.mp hplace
  obtain ⟨interface, hinterface, rfl⟩ := List.mem_map.mp hplace
  obtain ⟨hmem, hfamily⟩ := List.mem_filter.mp hprotocol
  rw [(h.built_of_mem hmem).family_eq hinterface]
  exact beq_iff_eq.mp hfamily

theorem nodup_interface_id :
    ((registry.protocols.flatMap placesOf).map (·.interface.id)).Nodup := by
  have hids : ∀ protocol ∈ registry.protocols, (placesOf protocol).map (·.interface.id) =
      (List.range protocol.interfaces.values.length).map (InterfaceId.mk protocol.id) := by
    intro protocol hprotocol
    rw [placesOf, List.map_map, ← (h.built_of_mem hprotocol).map_interface_id]
    rfl
  rw [List.map_flatMap, List.flatMap_congr hids, List.nodup_flatMap]
  constructor
  · intro protocol _
    apply List.nodup_range.map
    intro index index' heq
    exact (InterfaceId.mk.inj heq).2
  · have hnumbers : registry.protocols.Pairwise (·.id ≠ ·.id) := by
      rw [← List.pairwise_map, h.map_id]
      exact List.nodup_range
    refine hnumbers.imp ?_
    intro protocol protocol' hne id hid hid'
    obtain ⟨index, -, rfl⟩ := List.mem_map.mp hid
    obtain ⟨index', -, heq⟩ := List.mem_map.mp hid'
    exact hne (InterfaceId.mk.inj heq).1.symm

end Registry.Coherent
end Waybind
