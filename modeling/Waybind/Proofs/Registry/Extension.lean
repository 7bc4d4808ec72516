import Waybind.Proofs.Bindings.Registration

/-!
This module contains lookups in registries to which further protocols have been added. Whatever has
been found before is still found, as the protocols that were there come first.
-/

namespace Waybind

open Registry (ofFamily)
open Xml (Element)

theorem Lookup.Declared.interface?_id {reference : Registry} {interface : Interface}
    (h : Declared reference interface) (hcoherent : reference.Coherent) :
    reference.interface? interface.id = some interface := by
  obtain ⟨protocol, hprotocol, hmem⟩ := h
  obtain ⟨index, hindex⟩ := (Table.mem_values_iff _ interface).mp hmem
  exact (hcoherent.consistent.interface_id _ protocol index interface
    (hcoherent.protocol?_id hprotocol) hindex).2.1

theorem Registry.registered_of_interface? {registry : Registry} {id : InterfaceId}
    {protocol : Protocol} {interface : Interface}
    (hprotocol : registry.protocol? id.protocol = some protocol)
    (hinterface : registry.interface? id = some interface) :
    Lookup.Registered registry ⟨protocol, interface⟩ := by
  obtain ⟨protocol', hprotocol', hindex⟩ :=
    (interface?_eq_some_iff registry id interface).mp hinterface
  rw [hprotocol, Option.some.injEq] at hprotocol'
  subst hprotocol'
  exact ⟨(mem_protocols_iff registry protocol).mpr ⟨id.protocol, hprotocol⟩,
    (Table.mem_values_iff _ interface).mpr ⟨id.index, hindex⟩⟩

structure Registry.Extends (registry extended : Registry) : Prop where
  coherent : registry.Coherent
  coherent' : extended.Coherent
  protocols_eq : ∃ added, extended.protocols = registry.protocols ++ added

namespace Registry.Extends

variable {registry extended : Registry} (h : registry.Extends extended)

include h

theorem mem_protocols {protocol : Protocol} (hprotocol : protocol ∈ registry.protocols) :
    protocol ∈ extended.protocols := by
  obtain ⟨added, hadded⟩ := h.protocols_eq
  rw [hadded]
  exact List.mem_append_left _ hprotocol

theorem protocol?_eq_some {number : Nat} {protocol : Protocol}
    (hprotocol : registry.protocol? number = some protocol) :
    extended.protocol? number = some protocol := by
  obtain ⟨added, hadded⟩ := h.protocols_eq
  rw [protocol?_eq] at hprotocol ⊢
  rw [hadded, List.getElem?_append_left (List.getElem?_eq_some_iff.mp hprotocol).1, hprotocol]

theorem interface?_eq_some {id : InterfaceId} {interface : Interface}
    (hinterface : registry.interface? id = some interface) :
    extended.interface? id = some interface := by
  rw [interface?_eq_some_iff] at hinterface ⊢
  obtain ⟨protocol, hprotocol, hindex⟩ := hinterface
  exact ⟨protocol, h.protocol?_eq_some hprotocol, hindex⟩

theorem ofFamily_eq (family : String) :
    ∃ added, ofFamily extended.protocols family = ofFamily registry.protocols family ++ added := by
  obtain ⟨added, hadded⟩ := h.protocols_eq
  rw [hadded]
  exact ⟨ofFamily added family, List.filter_append _ _⟩

theorem registered {place : Place} (hplace : Lookup.Registered registry place) :
    Lookup.Registered extended place :=
  ⟨h.mem_protocols hplace.protocol_mem, hplace.interface_mem⟩

end Registry.Extends

namespace Lookup

theorem findDeclared?_append {protocols added : List Protocol} {name : String}
    {found : String × Interface} (h : findDeclared? protocols name = some found) :
    findDeclared? (protocols ++ added) name = some found := by
  unfold findDeclared? at h ⊢
  rw [List.findSome?_append, h, Option.some_or]

section Extension

variable {registry extended : Registry} (h : registry.Extends extended)

include h

theorem eval_findInNamespace_extend {current : Protocol} {family name : String}
    {interface : Interface}
    (hfound : eval registry (findInNamespace current family name) = .ok interface) :
    eval extended (findInNamespace current family name) = .ok interface := by
  rw [eval_findInNamespace h.coherent] at hfound
  rw [eval_findInNamespace h.coherent']
  cases hdeclared : findDeclared? (ofFamily registry.protocols family) name with
  | none =>
    rw [hdeclared] at hfound
    cases hfound
  | some found =>
    obtain ⟨added, hadded⟩ := h.ofFamily_eq family
    rw [hdeclared] at hfound
    rw [hadded, findDeclared?_append hdeclared]
    exact hfound

theorem eval_findInterface_extend {current : Protocol} {name : String} {interface : Interface}
    (hfound : eval registry (findInterface current name) = .ok interface) :
    eval extended (findInterface current name) = .ok interface := by
  unfold findInterface at hfound ⊢
  split at hfound
  · exact hfound
  · split at hfound
    · cases hfound
    · split at hfound
      · cases hfound
      · next hne =>
        rw [if_neg hne]
        exact eval_findInNamespace_extend h hfound

theorem eval_findEnum_extend {place : Place} {name : String} {found : Interface × Enumeration}
    (hfound : eval registry (findEnum place name) = .ok found) :
    eval extended (findEnum place name) = .ok found := by
  unfold findEnum at hfound ⊢
  split at hfound
  · simp only [eval, exec_enumOf] at hfound ⊢
    exact hfound
  · rw [eval_findInterface_enumOf, Except.bind_eq_ok_iff] at hfound ⊢
    obtain ⟨owner, howner, hfound⟩ := hfound
    exact ⟨owner, eval_findInterface_extend h howner, hfound⟩
  · cases hfound

end Extension
end Lookup

namespace Registry

theorem extends_step_add {registry : Registry} (h : registry.Coherent) (root : Element) :
    registry.Extends (registry.step (.add root)) := by
  refine ⟨h, h.step _, ?_⟩
  rw [step_add]
  split
  · next protocol _ => exact ⟨[protocol], protocols_register registry protocol⟩
  · exact ⟨[], (List.append_nil _).symm⟩

theorem Extends.trans {registry extended further : Registry} (h : registry.Extends extended)
    (h' : extended.Extends further) : registry.Extends further := by
  obtain ⟨added, hadded⟩ := h.protocols_eq
  obtain ⟨added', hadded'⟩ := h'.protocols_eq
  refine ⟨h.coherent, h'.coherent', added ++ added', ?_⟩
  rw [hadded', hadded, List.append_assoc]

theorem extends_after (documents more : List Element) :
    (after (documents.map .add)).Extends (after ((documents ++ more).map .add)) := by
  induction more using List.reverseRecOn with
  | nil =>
    rw [List.append_nil]
    exact ⟨coherent_after _, coherent_after _, [], (List.append_nil _).symm⟩
  | append_singleton more root ih =>
    rw [← List.append_assoc, List.map_append, List.map_singleton, after_append]
    exact ih.trans (extends_step_add ih.coherent' root)

theorem ofFamily_after_append {documents more : List Element} {family : String}
    (hmore : ∀ root ∈ more, familyOf? root ≠ some family) :
    ofFamily (after ((documents ++ more).map .add)).protocols family =
      ofFamily (after (documents.map .add)).protocols family := by
  induction more using List.reverseRecOn with
  | nil => rw [List.append_nil]
  | append_singleton more root ih =>
    rw [List.forall_mem_append, List.forall_mem_singleton] at hmore
    rw [← List.append_assoc, List.map_append, List.map_singleton, after_append, step_add,
      ← ih hmore.1]
    split
    · next protocol hread =>
      have hfamily := hmore.2
      rw [familyOf?_eq root, hread] at hfamily
      rw [protocols_register, ofFamily_append, if_neg, List.append_nil]
      exact fun heq => hfamily (congrArg some heq)
    · rfl

end Registry
end Waybind
