import Waybind.Proofs.Bindings.Renumber

/-!
This module contains that bindings do not depend on the order in which documents of different
families are added: registries in which the documents of each family were added in the same order
have the same protocols, up to their numbers.
-/

namespace Waybind

open Registry (ofFamily)
open Xml (Element)

def familyOf? (root : Element) : Option String :=
  (Protocol.ofElement root 0).toOption.map (·.family)

theorem familyOf?_eq (root : Element) (number : Nat) :
    familyOf? root = (Protocol.ofElement root number).toOption.map (·.family) := by
  have hread := Protocol.ofElement_renumber (fun _ => 0) root number
  rw [familyOf?, hread]
  cases Protocol.ofElement root number with
  | error error => rfl
  | ok protocol => rfl

def documentsOf (documents : List Element) (family : String) : List Element :=
  documents.filter (familyOf? · == some family)

theorem documentsOf_append (documents : List Element) (root : Element) (family : String) :
    documentsOf (documents ++ [root]) family =
      documentsOf documents family ++ if familyOf? root = some family then [root] else [] := by
  by_cases h : familyOf? root = some family
  · simp [documentsOf, h]
  · simp [documentsOf, h]

def ReadFrom (root : Element) (protocol : Protocol) : Prop :=
  Protocol.ofElement root protocol.id = .ok protocol

theorem readFrom_ofFamily (documents : List Element) (family : String) :
    List.Forall₂ ReadFrom (documentsOf documents family)
      (ofFamily (Registry.after (documents.map .add)).protocols family) := by
  induction documents using List.reverseRecOn with
  | nil => exact .nil
  | append_singleton documents root ih =>
    rw [documentsOf_append, List.map_append, List.map_singleton, Registry.after_append,
      Registry.step_add, familyOf?_eq root (Registry.after (documents.map .add)).members.length]
    cases hread : Protocol.ofElement root (Registry.after (documents.map .add)).members.length with
    | error error =>
      -- a document that is refused is refused under any number
      simpa [Except.toOption] using ih
    | ok protocol =>
      have hid := (Protocol.built_of_ofElement hread).id_eq
      simp only [Except.toOption, Option.map_some, Option.some.injEq, Registry.protocols_register,
        Registry.ofFamily_append]
      apply List.rel_append ih
      split
      · refine .cons ?_ .nil
        rw [ReadFrom, hid, hread]
      · exact .nil

theorem exists_getElem?_of_forall₂ {α β : Type} {R : α → β → Prop} {parts : List α}
    {values : List β} (h : List.Forall₂ R parts values) {position : Nat} {part : α}
    (hpart : parts[position]? = some part) : ∃ value, values[position]? = some value ∧ R part value := by
  obtain ⟨hposition, rfl⟩ := List.getElem?_eq_some_iff.mp hpart
  have hposition' : position < values.length := h.length_eq ▸ hposition
  exact ⟨values[position], List.getElem?_eq_getElem hposition', h.get hposition hposition'⟩

namespace Registry

def twinNumber (registry registry' : Registry) (number : Nat) : Nat :=
  match registry.protocol? number with
  | none => number
  | some protocol =>
    let position := (ofFamily registry.protocols protocol.family).idxOf protocol
    ((ofFamily registry'.protocols protocol.family)[position]?.map (·.id)).getD number

theorem twinNumber_eq {registry registry' : Registry} (hcoherent : registry.Coherent)
    {family : String} {position : Nat} {protocol protocol' : Protocol}
    (h : (ofFamily registry.protocols family)[position]? = some protocol)
    (h' : (ofFamily registry'.protocols family)[position]? = some protocol') :
    twinNumber registry registry' protocol.id = protocol'.id := by
  obtain ⟨hmem, hfamily⟩ := List.mem_filter.mp (List.mem_of_getElem? h)
  have hnodup : (ofFamily registry.protocols family).Nodup :=
    (hcoherent.pairwise_id_ofFamily family).nodup.of_map _
  have hposition : (ofFamily registry.protocols family).idxOf protocol = position := by
    obtain ⟨hlt, rfl⟩ := List.getElem?_eq_some_iff.mp h
    exact hnodup.idxOf_getElem position hlt
  rw [beq_iff_eq] at hfamily
  simp only [twinNumber, hcoherent.protocol?_id hmem, hfamily, hposition, h']
  rfl

theorem renumbered_twinNumber {registry registry' : Registry} (hcoherent : registry.Coherent)
    (hcoherent' : registry'.Coherent) {documents : String → List Element}
    (h : ∀ family, List.Forall₂ ReadFrom (documents family) (ofFamily registry.protocols family))
    (h' : ∀ family,
      List.Forall₂ ReadFrom (documents family) (ofFamily registry'.protocols family)) :
    registry.Renumbered (twinNumber registry registry') registry' where
  coherent := hcoherent
  coherent' := hcoherent'
  ofFamily_eq := by
    intro family
    apply List.ext_getElem?
    intro position
    rw [List.getElem?_map]
    cases hroot : (documents family)[position]? with
    | none =>
      have hlength := List.getElem?_eq_none_iff.mp hroot
      rw [List.getElem?_eq_none ((h' family).length_eq ▸ hlength),
        List.getElem?_eq_none ((h family).length_eq ▸ hlength), Option.map_none]
    | some root =>
      obtain ⟨protocol, hprotocol, hread⟩ := exists_getElem?_of_forall₂ (h family) hroot
      obtain ⟨protocol', hprotocol', hread'⟩ := exists_getElem?_of_forall₂ (h' family) hroot
      rw [ReadFrom, ← twinNumber_eq hcoherent hprotocol hprotocol', Protocol.ofElement_renumber,
        hread] at hread'
      rw [hprotocol, hprotocol', Option.map_some, ← Except.ok.inj hread']

end Registry

namespace Bindings

theorem outcome_eq_of_documentsOf_eq (documents documents' : List Element)
    (h : ∀ family, documentsOf documents family = documentsOf documents' family)
    (runtimeDir family : String) :
    outcome (Registry.after (documents.map .add)) runtimeDir family =
      outcome (Registry.after (documents'.map .add)) runtimeDir family := by
  have hcoherent := Registry.coherent_after (documents.map .add)
  have hcoherent' := Registry.coherent_after (documents'.map .add)
  have hrenumbered := Registry.renumbered_twinNumber hcoherent hcoherent'
    (readFrom_ofFamily documents) (fun other => h other ▸ readFrom_ofFamily documents' other)
  have hfresh := undisturbed_of_fresh hcoherent (globals_after_add documents)
  have hfresh' := undisturbed_of_fresh hcoherent' (globals_after_add documents')
  rw [hfresh.outcome_eq hcoherent, hfresh'.outcome_eq hcoherent',
    determined_renumber hrenumbered]

def seatDocument : Element :=
  ⟨"protocol", [("name", "wayland")], [
    ⟨"interface", [("name", "wl_seat"), ("version", "1")], [
      ⟨"enum", [("name", "capability"), ("bitfield", "true")], [
        ⟨"entry", [("name", "pointer"), ("value", "1")], [], ""⟩], ""⟩,
      ⟨"event", [("name", "capabilities")], [
        ⟨"arg", [("name", "now"), ("type", "uint"), ("enum", "capability")], [], ""⟩], ""⟩],
      ""⟩], ""⟩

def outputDocument : Element :=
  ⟨"protocol", [("name", "output")], [
    ⟨"interface", [("name", "wl_output"), ("version", "1")], [], ""⟩], ""⟩

def dockDocument : Element :=
  ⟨"protocol", [("name", "ext_dock")], [
    ⟨"interface", [("name", "ext_dock"), ("version", "1")], [
      ⟨"event", [("name", "moved")], [
        ⟨"arg", [("name", "to"), ("type", "object"), ("interface", "wl_output")], [], ""⟩,
        ⟨"arg", [("name", "by"), ("type", "uint"), ("enum", "wl_seat.capability")], [], ""⟩], ""⟩],
      ""⟩], ""⟩

theorem documentsOf_dock_moved (family : String) :
    documentsOf [seatDocument, outputDocument, dockDocument] family =
      documentsOf [dockDocument, seatDocument, outputDocument] family := by
  have hseat : familyOf? seatDocument = some "wl" := by decide +kernel
  have houtput : familyOf? outputDocument = some "wl" := by decide +kernel
  have hdock : familyOf? dockDocument = some "ext" := by decide +kernel
  simp only [documentsOf, List.filter_cons, List.filter_nil, hseat, houtput, hdock]
  by_cases hfamily : family = "wl"
  · subst hfamily
    rfl
  · simp [Ne.symm hfamily]

theorem outcome_dock_moved :
    (Registry.after ([seatDocument, outputDocument, dockDocument].map .add)).protocols.map (·.name) =
        ["wayland", "output", "ext_dock"]
      ∧ (Registry.after ([dockDocument, seatDocument, outputDocument].map .add)).protocols.map
          (·.name) = ["ext_dock", "wayland", "output"]
      ∧ outcome (Registry.after ([seatDocument, outputDocument, dockDocument].map .add)) "src" "ext" =
        outcome (Registry.after ([dockDocument, seatDocument, outputDocument].map .add)) "src"
          "ext"
      ∧ (outcome (Registry.after ([dockDocument, seatDocument, outputDocument].map .add)) "src"
          "ext").toOption.isSome := by
  refine ⟨by decide +kernel, by decide +kernel, ?_, by decide +kernel⟩
  exact outcome_eq_of_documentsOf_eq [seatDocument, outputDocument, dockDocument]
    [dockDocument, seatDocument, outputDocument] documentsOf_dock_moved "src" "ext"

end Bindings
end Waybind
