import Waybind.Proofs.Bindings.Erase
import Waybind.Proofs.Bindings.Registration
import Waybind.Proofs.Bindings.Slashless

/-!
This module contains that documentation cannot influence code. The code of bindings, that is all but
comments and white space, is the same for protocols that differ in their documentation only.
-/

namespace Waybind
namespace Bindings

open Lookup
open Registry (appendNew ofFamily)
open Xml (Element)
open Zig (HasCode Slashless code)

theorem hasCode_doc (doc : Option String) : HasCode (Zig.comment doc "///") "" :=
  Zig.hasCode_comment doc rfl (by decide : '\n' ∉ ['/'])

theorem hasCode_enumerant {entry : Entry} (h : Slashless entry.name) :
    HasCode (enumerant entry) (enumerant entry.erase) := by
  have hassign : Slashless " = " := by decide
  exact ((((hasCode_doc _).append_slashless (Zig.slashless_ident h)).append_slashless
    hassign).append_slashless (Zig.slashless_toString_int _)).append_slashless (by decide)

theorem hasCode_enumText {enum : Enumeration} (h : ∀ name ∈ enum.allNames, Slashless name) :
    HasCode (enumText enum) (enumText enum.erase) := by
  obtain ⟨hname, hentries⟩ := List.forall_mem_cons.mp h
  have hbitfield : enum.erase.bitfield = enum.bitfield := rfl
  unfold enumText
  simp only [hbitfield, bitfield_erase]
  split
  · exact (hasCode_doc _).append (slashless_bitfield h).hasCode
  · have hconst : Slashless "pub const " := by decide
    have henum : Slashless " = enum(" := by decide
    have hopen : Slashless ") \x7b" := by decide
    have hbacking : Slashless (enumBacking enum) := by
      unfold enumBacking
      split
      · decide
      · decide
    have hvalues : HasCode (String.join (enum.entries.values.map enumerant))
        (String.join (enum.erase.entries.values.map enumerant)) := by
      rw [Enumeration.erase, Table.values_map, List.map_map]
      apply HasCode.join
      intro entry hentry
      exact hasCode_enumerant (hentries _ (List.mem_map_of_mem hentry))
    have hhead := (((((hasCode_doc (enum.description.map (·.body))).append_slashless
      hconst).append_slashless (Zig.slashless_ident (Zig.slashless_camel hname))).append_slashless
      henum).append_slashless hbacking).append_slashless hopen
    have hsame : enumBacking enum.erase = enumBacking enum := by
      rw [enumBacking, enumBacking, Enumeration.isSigned_erase]
    rw [hsame]
    exact (hhead.append hvalues).append_slashless (by decide)

theorem hasCode_text {typing : Typing} {interface : Interface} {id : InterfaceId}
    (hundocumented : typing.Undocumented) (htyping : typing.Slashless interface)
    (hbuilt : interface.Built id) (hinterface : interface.Slashless) :
    HasCode (typing.text interface) (typing.text interface.erase) := by
  have hconst : Slashless "pub const " := by decide
  have hopen : Slashless " = enum(u32) \x7b\n_,\n" := by decide
  have hmetadata : HasCode (metadata interface).render (metadata interface.erase).render := by
    rw [metadata_erase]
    exact (slashless_metadata hbuilt hinterface).hasCode
  have henums : HasCode (String.join (interface.enums.values.map enumText))
      (String.join (interface.erase.enums.values.map enumText)) := by
    rw [Interface.erase, Table.values_map, List.map_map]
    apply HasCode.join
    intro enum henum
    exact hasCode_enumText (hinterface.enum henum)
  have hevent : HasCode (((typing.eventUnion? interface).map Zig.Node.render).getD "")
      (((typing.eventUnion? interface.erase).map Zig.Node.render).getD "") := by
    have hempty : interface.erase.events.isEmpty = interface.events.isEmpty :=
      Table.isEmpty_map _ _
    rw [Typing.eventUnion?, Typing.eventUnion?, hempty, hundocumented.eventUnion]
    split
    · exact .empty
    · exact (slashless_eventUnion htyping hinterface).hasCode
  have hrequest : HasCode (typing.requestUnion interface).render
      (typing.requestUnion interface.erase).render := by
    rw [hundocumented.requestUnion]
    exact (slashless_requestUnion htyping hinterface).hasCode
  have hhead := ((hasCode_doc (interface.description.map (·.body))).append_slashless
    hconst).append_slashless (Zig.slashless_ident hinterface.handleName)
  exact (((((hhead.append_slashless hopen).append hmetadata).append henums).append hevent).append
    hrequest).append_slashless (by decide)

def bareText (registry : Registry) (protocol : Protocol) : String :=
  String.join ((placesOf protocol).map fun place =>
    (typing registry place).text place.interface.erase)

theorem hasCode_protocolText {registry : Registry} (hcoherent : registry.Coherent)
    (hslashless : registry.Slashless) {protocol : Protocol}
    (hprotocol : protocol ∈ registry.protocols) :
    HasCode (protocolText registry protocol) (bareText registry protocol) := by
  have hcomment : HasCode (protocolComment protocol) "" :=
    (Zig.hasCode_comment _ rfl List.not_mem_nil).append (Zig.hasCode_comment _ rfl List.not_mem_nil)
  rw [← String.empty_append (s := bareText registry protocol)]
  refine hcomment.append (.join ?_)
  intro place hplace
  obtain ⟨interface, hinterface, rfl⟩ := List.mem_map.mp hplace
  have hregistered : Registered registry ⟨protocol, interface⟩ := ⟨hprotocol, hinterface⟩
  obtain ⟨id, hbuilt⟩ := hregistered.interface_built hcoherent
  exact hasCode_text (undocumented_typing registry _)
    (slashless_typing hcoherent hslashless hregistered) hbuilt
    (slashless_of_declared hslashless ⟨protocol, hprotocol, hinterface⟩)

section Redocumented

variable {registry registry' : Registry} (h : registry.Redocumented registry')

include h

theorem slashless_redocumented (hslashless : registry.Slashless) : registry'.Slashless := by
  intro protocol' hprotocol'
  have herase : protocol'.erase ∈ registry.protocols.map Protocol.erase := by
    rw [h.protocols_eq]
    exact List.mem_map_of_mem hprotocol'
  obtain ⟨protocol, hprotocol, herase⟩ := List.mem_map.mp herase
  rw [← Protocol.allNames_erase, ← herase, Protocol.allNames_erase]
  exact hslashless protocol hprotocol

theorem bareText_redocumented {protocol protocol' : Protocol}
    (hprotocol : protocol.erase = protocol'.erase) :
    bareText registry protocol = bareText registry' protocol' := by
  have hplaces : (placesOf protocol).map Place.erase = (placesOf protocol').map Place.erase := by
    rw [← placesOf_erase, ← placesOf_erase, hprotocol]
  apply congrArg String.join
  apply map_eq_map_of_map_eq hplaces
  intro place _ place' _ hplace
  have hinterface : place.interface.erase = place'.interface.erase :=
    congrArg Place.interface hplace
  rw [typing_redocumented h hplace, hinterface]

theorem code_namespaceText_redocumented (hslashless : registry.Slashless) (family : String)
    (rest : List Char) :
    code ((namespaceText registry family).toList ++ rest) =
      code ((namespaceText registry' family).toList ++ rest) := by
  have hslashless' := slashless_redocumented h hslashless
  have hcode : HasCode (namespaceText registry family)
      (String.join ((ofFamily registry.protocols family).map (bareText registry))) :=
    .join fun _ hprotocol =>
      hasCode_protocolText h.coherent hslashless (List.mem_filter.mp hprotocol).1
  have hcode' : HasCode (namespaceText registry' family)
      (String.join ((ofFamily registry'.protocols family).map (bareText registry'))) :=
    .join fun _ hprotocol =>
      hasCode_protocolText h.coherent' hslashless' (List.mem_filter.mp hprotocol).1
  have hbare : (ofFamily registry.protocols family).map (bareText registry) =
      (ofFamily registry'.protocols family).map (bareText registry') := by
    apply map_eq_map_of_map_eq (h.ofFamily_eq family)
    intro protocol _ protocol' _ hprotocol
    exact bareText_redocumented h hprotocol
  rw [hcode, hcode', hbare]

theorem code_determined_redocumented (hslashless : registry.Slashless)
    (runtimeDir family : String) :
    (determined registry runtimeDir family).map (fun text => code text.toList) =
      (determined registry' runtimeDir family).map fun text => code text.toList := by
  unfold determined
  rw [namespaceFault?_redocumented h, unitQualifiers_redocumented h]
  split
  · rfl
  · apply congrArg Except.ok
    simp only [String.toList_append]
    exact code_namespaceText_redocumented h hslashless family _

end Redocumented

theorem code_eq_of_erase_eq {documents documents' : List Element}
    (herase : (Registry.after (documents.map .add)).protocols.map Protocol.erase =
      (Registry.after (documents'.map .add)).protocols.map Protocol.erase)
    (hnames : ∀ protocol ∈ (Registry.after (documents.map .add)).protocols,
      ∀ name ∈ protocol.allNames, '/' ∉ name.toList)
    (runtimeDir family : String) :
    (outcome (Registry.after (documents.map .add)) runtimeDir family).map
        (fun text => code text.toList) =
      (outcome (Registry.after (documents'.map .add)) runtimeDir family).map
        fun text => code text.toList := by
  have h : Registry.Redocumented (Registry.after (documents.map .add))
      (Registry.after (documents'.map .add)) :=
    ⟨Registry.coherent_after _, Registry.coherent_after _, herase⟩
  have hfresh := undisturbed_of_fresh h.coherent (globals_after_add documents)
  have hfresh' := undisturbed_of_fresh h.coherent' (globals_after_add documents')
  rw [hfresh.outcome_eq h.coherent, hfresh'.outcome_eq h.coherent']
  exact code_determined_redocumented h hnames runtimeDir family

def notedDocument (text : String) : Element :=
  let description : Element := ⟨"description", [("summary", text)], [], text⟩
  ⟨"protocol", [("name", "ext_dock")], [⟨"copyright", [], [], text⟩, description,
    ⟨"interface", [("name", "ext_dock"), ("version", "1")], [description,
      ⟨"request", [("name", "hide")], [description,
        ⟨"arg", [("name", "for"), ("type", "uint"), ("summary", text)], [], ""⟩], ""⟩,
      ⟨"event", [("name", "moved")], [description,
        ⟨"arg", [("name", "by"), ("type", "uint"), ("enum", "edge")], [description], ""⟩], ""⟩,
      ⟨"enum", [("name", "edge"), ("bitfield", "true")], [description,
        ⟨"entry", [("name", "left"), ("value", "1"), ("summary", text)], [], ""⟩], ""⟩,
      ⟨"enum", [("name", "mode")], [
        ⟨"entry", [("name", "auto"), ("value", "0")], [description], ""⟩], ""⟩], ""⟩], ""⟩

theorem code_noted :
    outcome (Registry.after ([notedDocument "\x7d; //\nx: u8"].map .add)) "src" "ext" ≠
        outcome (Registry.after ([notedDocument ""].map .add)) "src" "ext"
      ∧ (outcome (Registry.after ([notedDocument "\x7d; //\nx: u8"].map .add)) "src" "ext").map
          (fun text => code text.toList) =
        (outcome (Registry.after ([notedDocument ""].map .add)) "src" "ext").map
          fun text => code text.toList := by
  refine ⟨by decide +kernel, ?_⟩
  exact code_eq_of_erase_eq (by decide +kernel) (by decide +kernel) "src" "ext"

end Bindings
end Waybind
