import Waybind.Proofs.Protocol.Built
import Waybind.Registry.Basic

/-!
This module contains the invariant of registries. It is kept when a protocol is added, when a
namespace comes into being and when a reference is noted.
-/

namespace Waybind

structure Member.Coherent (protocols : List Protocol) (member : Member) : Prop where
  nodup : member.globals.Nodup
  foreign : member.protocol.family ∉ member.globals
  known : ∀ family ∈ member.globals, ∃ protocol ∈ protocols, protocol.family = family

theorem Member.Coherent.mono {protocols protocols' : List Protocol} {member : Member}
    (h : member.Coherent protocols) (hsub : protocols ⊆ protocols') :
    member.Coherent protocols' where
  nodup := h.nodup
  foreign := h.foreign
  known := by
    intro family hfamily
    obtain ⟨protocol, hmem, heq⟩ := h.known family hfamily
    exact ⟨protocol, hsub hmem, heq⟩

namespace Registry

def ofFamily (protocols : List Protocol) (family : String) : List Protocol :=
  protocols.filter (·.family == family)

/--
Protocols stand at their numbers, and a namespace has the numbers of all protocols of its family.
-/
structure Coherent (registry : Registry) : Prop where
  built : ∀ number protocol, registry.protocol? number = some protocol → protocol.Built number
  names_nodup : registry.namespaces.names.Nodup
  namespaces : ∀ key space, (key, space) ∈ registry.namespaces.entries →
    space = ⟨key, (ofFamily registry.protocols key).map (·.id)⟩
  family_mem : ∀ protocol ∈ registry.protocols, protocol.family ∈ registry.namespaces.names
  members : ∀ member ∈ registry.members, member.Coherent registry.protocols

theorem protocol?_eq (registry : Registry) (number : Nat) :
    registry.protocol? number = registry.protocols[number]? := by
  simp [protocol?, protocols]

theorem protocol?_eq_some_iff (registry : Registry) (number : Nat) (protocol : Protocol) :
    registry.protocol? number = some protocol ↔
      ∃ member, registry.members[number]? = some member ∧ member.protocol = protocol := by
  rw [protocol?, Option.map_eq_some_iff]

theorem mem_protocols_iff (registry : Registry) (protocol : Protocol) :
    protocol ∈ registry.protocols ↔ ∃ number, registry.protocol? number = some protocol := by
  simp only [protocol?_eq, List.mem_iff_getElem?]

theorem coherent_empty : empty.Coherent where
  built := by simp [protocol?, empty]
  names_nodup := List.nodup_nil
  namespaces := by simp [empty, Table.empty]
  family_mem := by simp [protocols, empty]
  members := by simp [empty]

section Touch

variable (registry : Registry) (family : String)

@[simp]
theorem members_touch : (registry.touch family).members = registry.members := by
  unfold touch
  split
  · rfl
  · rfl

@[simp]
theorem protocols_touch : (registry.touch family).protocols = registry.protocols := by
  simp [protocols]

@[simp]
theorem protocol?_touch (number : Nat) :
    (registry.touch family).protocol? number = registry.protocol? number := by
  simp [protocol?]

theorem names_touch : (registry.touch family).namespaces.names =
    if family ∈ registry.namespaces.names then registry.namespaces.names
    else registry.namespaces.names ++ [family] := by
  unfold touch
  split
  · next h =>
    rw [if_pos]
    by_contra hmem
    rw [(Table.get?_eq_none_iff _ _).mpr hmem] at h
    cases h
  · next h =>
    rw [if_neg ((Table.get?_eq_none_iff _ _).mp h)]
    simp [Table.names]

theorem mem_entries_touch (key : String) (space : Namespace) :
    (key, space) ∈ (registry.touch family).namespaces.entries ↔
      (key, space) ∈ registry.namespaces.entries
        ∨ family ∉ registry.namespaces.names ∧ key = family ∧ space = ⟨family, []⟩ := by
  rw [← Table.get?_eq_none_iff]
  unfold touch
  split
  · next h => simp [h]
  · next h => simp [h]

end Touch

theorem Coherent.ofFamily_eq_nil {registry : Registry} (h : registry.Coherent) {family : String}
    (hnew : family ∉ registry.namespaces.names) : ofFamily registry.protocols family = [] := by
  rw [ofFamily, List.filter_eq_nil_iff]
  intro protocol hprotocol hkey
  rw [beq_iff_eq] at hkey
  exact hnew (hkey ▸ h.family_mem protocol hprotocol)

theorem Coherent.touch {registry : Registry} (h : registry.Coherent) (family : String) :
    (registry.touch family).Coherent where
  built := by
    simp only [protocol?_touch]
    exact h.built
  names_nodup := by
    rw [names_touch]
    split
    · exact h.names_nodup
    · next hmem =>
      rw [List.nodup_append]
      refine ⟨h.names_nodup, List.nodup_singleton family, ?_⟩
      rintro name hname _ hlast rfl
      rw [List.mem_singleton] at hlast
      exact hmem (hlast ▸ hname)
  namespaces := by
    intro key space hentry
    rw [protocols_touch]
    rcases (mem_entries_touch registry family key space).mp hentry with hentry | ⟨hnew, rfl, rfl⟩
    · exact h.namespaces key space hentry
    · -- there are no protocols of a family that has no namespace yet
      rw [h.ofFamily_eq_nil hnew, List.map_nil]
  family_mem := by
    intro protocol hprotocol
    rw [protocols_touch] at hprotocol
    have hmem := h.family_mem protocol hprotocol
    rw [names_touch]
    split
    · exact hmem
    · exact List.mem_append_left _ hmem
  members := by
    rw [members_touch, protocols_touch]
    exact h.members

section Register

variable (registry : Registry) (protocol : Protocol)

theorem members_register :
    (registry.register protocol).members = registry.members ++ [⟨protocol, []⟩] := by
  simp [register, enroll]

theorem protocols_register :
    (registry.register protocol).protocols = registry.protocols ++ [protocol] := by
  simp [protocols, members_register]

theorem names_register : (registry.register protocol).namespaces.names =
    (registry.touch protocol.family).namespaces.names := by
  simp only [register, enroll, Table.names, List.map_map]
  apply List.map_congr_left
  rintro ⟨key, space⟩ -
  simp only [Function.comp_apply]
  split
  · rfl
  · rfl

theorem mem_entries_register (key : String) (space : Namespace) :
    (key, space) ∈ (registry.register protocol).namespaces.entries →
      ∃ before, (key, before) ∈ (registry.touch protocol.family).namespaces.entries
        ∧ space = ⟨before.family,
          before.protocols ++ if protocol.family = key then [protocol.id] else []⟩ := by
  simp only [register, enroll, List.mem_map]
  rintro ⟨⟨key', before⟩, hbefore, hentry⟩
  by_cases hkey : key' = protocol.family
  · simp only [hkey, beq_self_eq_true, ↓reduceIte, Prod.mk.injEq] at hentry
    obtain ⟨rfl, rfl⟩ := hentry
    exact ⟨before, hkey ▸ hbefore, by simp⟩
  · simp only [beq_iff_eq, hkey, ↓reduceIte, Prod.mk.injEq] at hentry
    obtain ⟨rfl, rfl⟩ := hentry
    exact ⟨before, hbefore, by simp [Ne.symm hkey]⟩

end Register

theorem ofFamily_append (protocols : List Protocol) (protocol : Protocol) (family : String) :
    ofFamily (protocols ++ [protocol]) family =
      ofFamily protocols family ++ if protocol.family = family then [protocol] else [] := by
  by_cases h : protocol.family = family
  · simp [ofFamily, h]
  · simp [ofFamily, h]

theorem Coherent.register {registry : Registry} (h : registry.Coherent) {protocol : Protocol}
    (hbuilt : protocol.Built registry.members.length) : (registry.register protocol).Coherent where
  built := by
    intro number other hother
    rw [protocol?_eq, protocols_register] at hother
    by_cases hnumber : number < registry.protocols.length
    · rw [List.getElem?_append_left hnumber, ← protocol?_eq] at hother
      exact h.built number other hother
    · -- only the new protocol has a number that was not taken
      have hlength : registry.protocols.length = registry.members.length := List.length_map _
      have hlast : number = registry.protocols.length := by
        have := (List.getElem?_eq_some_iff.mp hother).1
        simp only [List.length_append, List.length_singleton] at this
        omega
      rw [hlast, List.getElem?_concat_length, Option.some.injEq] at hother
      rw [← hother, hlast, hlength]
      exact hbuilt
  names_nodup := by
    rw [names_register]
    exact (h.touch protocol.family).names_nodup
  namespaces := by
    intro key space hentry
    obtain ⟨before, hbefore, rfl⟩ := mem_entries_register registry protocol key space hentry
    rw [(h.touch protocol.family).namespaces key before hbefore, protocols_touch,
      protocols_register, ofFamily_append]
    split
    · simp
    · simp
  family_mem := by
    intro other hother
    rw [protocols_register, List.mem_append, List.mem_singleton] at hother
    rw [names_register]
    rcases hother with hother | rfl
    · apply (h.touch protocol.family).family_mem
      rwa [protocols_touch]
    · rw [names_touch]
      split
      · next hmem => exact hmem
      · simp
  members := by
    intro member hmember
    rw [members_register, List.mem_append, List.mem_singleton] at hmember
    rw [protocols_register]
    rcases hmember with hmember | rfl
    · exact (h.members member hmember).mono (List.subset_append_left _ _)
    · exact ⟨List.nodup_nil, List.not_mem_nil, by simp⟩

section RecordGlobal

variable (registry : Registry) (id : Nat) (family : String)

theorem getElem?_members_recordGlobal (number : Nat) :
    (registry.recordGlobal id family).members[number]? =
      registry.members[number]?.map fun member =>
        if id = number then ⟨member.protocol, appendNew member.globals family⟩ else member := by
  rw [recordGlobal, List.getElem?_modify]
  split
  · rfl
  · rfl

@[simp]
theorem protocol?_recordGlobal (number : Nat) :
    (registry.recordGlobal id family).protocol? number = registry.protocol? number := by
  rw [protocol?, getElem?_members_recordGlobal, Option.map_map, protocol?]
  congr 1
  funext member
  simp only [Function.comp_apply]
  split
  · rfl
  · rfl

@[simp]
theorem protocols_recordGlobal :
    (registry.recordGlobal id family).protocols = registry.protocols := by
  apply List.ext_getElem?
  intro number
  rw [← protocol?_eq, protocol?_recordGlobal, protocol?_eq]

end RecordGlobal

theorem mem_appendNew (families : List String) (family other : String) :
    other ∈ appendNew families family ↔ other ∈ families ∨ other = family := by
  unfold appendNew
  split
  · next h =>
    rw [List.contains_iff_mem] at h
    grind
  · simp

theorem nodup_appendNew {families : List String} (h : families.Nodup) (family : String) :
    (appendNew families family).Nodup := by
  unfold appendNew
  split
  · exact h
  · next hmem =>
    rw [List.contains_iff_mem] at hmem
    grind

theorem Coherent.recordGlobal {registry : Registry} (h : registry.Coherent) {current : Protocol}
    (hcurrent : registry.protocol? current.id = some current) {family : String}
    (hforeign : family ≠ current.family)
    (hknown : ∃ protocol ∈ registry.protocols, protocol.family = family) :
    (registry.recordGlobal current.id family).Coherent where
  built := by
    simp only [protocol?_recordGlobal]
    exact h.built
  names_nodup := h.names_nodup
  namespaces := by
    rw [protocols_recordGlobal]
    exact h.namespaces
  family_mem := by
    rw [protocols_recordGlobal]
    exact h.family_mem
  members := by
    intro member hmember
    rw [protocols_recordGlobal]
    obtain ⟨number, hnumber⟩ := List.mem_iff_getElem?.mp hmember
    rw [getElem?_members_recordGlobal, Option.map_eq_some_iff] at hnumber
    obtain ⟨before, hbefore, rfl⟩ := hnumber
    have hold := h.members before (List.mem_of_getElem? hbefore)
    split
    · next hid =>
      -- the reference is noted at the protocol that it is in
      have howner : before.protocol = current := by
        rw [← hid] at hbefore
        rw [protocol?, hbefore, Option.map_some, Option.some.injEq] at hcurrent
        exact hcurrent
      refine ⟨nodup_appendNew hold.nodup family, ?_, ?_⟩
      · rw [mem_appendNew, not_or]
        exact ⟨hold.foreign, howner ▸ hforeign.symm⟩
      · intro other hother
        rcases (mem_appendNew _ family other).mp hother with hother | rfl
        · exact hold.known other hother
        · exact hknown
    · exact hold

theorem Coherent.namespaceOf_eq {registry : Registry} (h : registry.Coherent) (family : String) :
    registry.namespaceOf family = ⟨family, (ofFamily registry.protocols family).map (·.id)⟩ := by
  unfold namespaceOf
  cases hspace : registry.namespaces.get? family with
  | some space =>
    exact h.namespaces family space ((Table.get?_eq_some_iff h.names_nodup family space).mp hspace)
  | none =>
    rw [Table.get?_eq_none_iff] at hspace
    rw [h.ofFamily_eq_nil hspace]
    rfl

theorem Coherent.protocol?_id {registry : Registry} (h : registry.Coherent) {protocol : Protocol}
    (hprotocol : protocol ∈ registry.protocols) :
    registry.protocol? protocol.id = some protocol := by
  obtain ⟨number, hnumber⟩ := (mem_protocols_iff registry protocol).mp hprotocol
  rw [(h.built number protocol hnumber).id_eq, hnumber]

theorem Coherent.built_of_mem {registry : Registry} (h : registry.Coherent) {protocol : Protocol}
    (hprotocol : protocol ∈ registry.protocols) : protocol.Built protocol.id :=
  h.built protocol.id protocol (h.protocol?_id hprotocol)

theorem Coherent.map_id {registry : Registry} (h : registry.Coherent) :
    registry.protocols.map (·.id) = List.range registry.members.length := by
  apply List.ext_getElem?
  intro number
  rw [List.getElem?_map, ← protocol?_eq]
  cases hprotocol : registry.protocol? number with
  | none =>
    rw [protocol?, Option.map_eq_none_iff, List.getElem?_eq_none_iff] at hprotocol
    simp [hprotocol]
  | some protocol =>
    have hnumber : number < registry.members.length := by
      obtain ⟨member, hmember, -⟩ := (protocol?_eq_some_iff _ _ _).mp hprotocol
      exact (List.getElem?_eq_some_iff.mp hmember).1
    simp [hnumber, (h.built number protocol hprotocol).id_eq]

theorem Coherent.pairwise_id_ofFamily {registry : Registry} (h : registry.Coherent)
    (family : String) :
    ((ofFamily registry.protocols family).map (·.id)).Pairwise (· < ·) := by
  have hsub : ((ofFamily registry.protocols family).map (·.id)).Sublist
      (registry.protocols.map (·.id)) := List.filter_sublist.map _
  rw [h.map_id] at hsub
  exact List.pairwise_lt_range.sublist hsub

theorem Coherent.protocolsOf_eq {registry : Registry} (h : registry.Coherent) (family : String) :
    registry.protocolsOf family = ofFamily registry.protocols family := by
  rw [protocolsOf, h.namespaceOf_eq, List.filterMap_map]
  refine Eq.trans ?_ List.filterMap_some
  apply List.filterMap_congr
  intro protocol hprotocol
  exact h.protocol?_id (List.mem_of_mem_filter hprotocol)

end Registry
end Waybind
