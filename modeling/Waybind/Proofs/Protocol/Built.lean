import Waybind.Proofs.Protocol.Reading

/-!
This module contains what holds of every protocol that has been read: its parts know their place in
it, and all names are of one family.
-/

namespace Waybind

open Xml (Element)

theorem Enumeration.nodup_of_ofElement {element : Element} {enum : Enumeration}
    (h : Enumeration.ofElement element = .ok enum) : (enum.entries.values.map (·.name)).Nodup := by
  obtain ⟨_, _, _, draft, _, _, _, hdraft, rfl, -⟩ := (ofElement_eq_ok_iff element enum).mp h
  exact (Draft.reads_of_foldlM hdraft).entries.nodup_map

namespace Interface

structure Built (place : InterfaceId) (interface : Interface) : Prop where
  read : ∃ element, Interface.ofElement element place = .ok interface
  id_eq : interface.id = place
  family_ne : interface.family ≠ ""
  underscore_notMem : '_' ∉ interface.family.toList
  message : ∀ kind index message, interface.message? kind index = some message →
    interface.messageName? kind index = some message.name
      ∧ ∀ arg ∈ message.args, arg.parent = ⟨place, kind, index⟩

theorem Draft.Reads.message {id : InterfaceId} {children : List Element} {draft : Interface.Draft}
    (h : Interface.Draft.Reads id children draft) {interface : Interface}
    (hrequests : interface.requests = draft.requests.toTable)
    (hevents : interface.events = draft.events.toTable) (kind : MessageKind) (index : Nat)
    (message : Message) (hmessage : interface.message? kind index = some message) :
    interface.messageName? kind index = some message.name
      ∧ ∀ arg ∈ message.args, arg.parent = ⟨id, kind, index⟩ := by
  cases kind with
  | request =>
    simp only [message?, messageName?, hrequests, Option.map_eq_some_iff] at hmessage ⊢
    obtain ⟨request, hrequest, rfl⟩ := hmessage
    obtain ⟨hname, child, -, hread⟩ := h.requests.of_at? hrequest
    refine ⟨hname, ?_⟩
    obtain ⟨_, _, message, _, _, hmessage, rfl⟩ :=
      (Request.ofElement_eq_ok_iff child _ _ request).mp hread
    exact Message.parent_eq_of_ofElement hmessage
  | event =>
    simp only [message?, messageName?, hevents, Option.map_eq_some_iff] at hmessage ⊢
    obtain ⟨event, hevent, rfl⟩ := hmessage
    obtain ⟨hname, child, -, hread⟩ := h.events.of_at? hevent
    refine ⟨hname, ?_⟩
    obtain ⟨_, message, _, hmessage, rfl⟩ := (Event.ofElement_eq_ok_iff child _ _ event).mp hread
    exact Message.parent_eq_of_ofElement hmessage

theorem built_of_ofElement {element : Element} {id : InterfaceId} {interface : Interface}
    (h : Interface.ofElement element id = .ok interface) : interface.Built id := by
  obtain ⟨family, name, _, draft, hname, _, hdraft, rfl⟩ :=
    (ofElement_eq_ok_iff element id interface).mp h
  obtain ⟨-, hunderscore, hfamily, -⟩ := (readName_eq_ok_iff element family name).mp hname
  exact {
    read := ⟨element, h⟩
    id_eq := rfl
    family_ne := hfamily
    underscore_notMem := hunderscore
    message := (Draft.reads_of_foldlM hdraft).message rfl rfl }

namespace Built

variable {place : InterfaceId} {interface : Interface} (h : interface.Built place)

include h

theorem exists_holds_events :
    ∃ parts, interface.events.Holds (Draft.readEvent place) (·.name) parts
      ∧ parts.length < UInt16.size := by
  obtain ⟨element, hread⟩ := h.read
  obtain ⟨_, _, _, draft, _, _, hdraft, rfl⟩ := (ofElement_eq_ok_iff element place _).mp hread
  have hreads := Draft.reads_of_foldlM hdraft
  exact ⟨_, hreads.events, hreads.events_lt⟩

theorem exists_holds_requests :
    ∃ parts, interface.requests.Holds (Draft.readRequest place) (·.name) parts := by
  obtain ⟨element, hread⟩ := h.read
  obtain ⟨_, _, _, draft, _, _, hdraft, rfl⟩ := (ofElement_eq_ok_iff element place _).mp hread
  exact ⟨_, (Draft.reads_of_foldlM hdraft).requests⟩

theorem exists_holds_enums :
    ∃ parts, interface.enums.Holds (fun _ => Enumeration.ofElement) (·.name) parts := by
  obtain ⟨element, hread⟩ := h.read
  obtain ⟨_, _, _, draft, _, _, hdraft, rfl⟩ := (ofElement_eq_ok_iff element place _).mp hread
  exact ⟨_, (Draft.reads_of_foldlM hdraft).enums⟩

theorem event_number {index : Nat} {event : Event}
    (hevent : interface.events.at? index = some event) : event.number.toNat = index + 1 := by
  obtain ⟨parts, hholds, hlt⟩ := h.exists_holds_events
  obtain ⟨-, child, hchild, hread⟩ := hholds.of_at? hevent
  obtain ⟨_, message, _, _, rfl⟩ := (Event.ofElement_eq_ok_iff child _ _ event).mp hread
  have hindex := (List.getElem?_eq_some_iff.mp hchild).1
  apply UInt16.toNat_ofNat_of_lt'
  omega

theorem event_names_nodup : interface.events.names.Nodup := by
  obtain ⟨parts, hholds, -⟩ := h.exists_holds_events
  exact hholds.nodup

theorem event_names_eq : interface.events.names = interface.events.values.map (·.name) := by
  obtain ⟨parts, hholds, -⟩ := h.exists_holds_events
  exact hholds.names_eq_map

theorem request_names_eq : interface.requests.names = interface.requests.values.map (·.name) := by
  obtain ⟨parts, hholds⟩ := h.exists_holds_requests
  exact hholds.names_eq_map

theorem exists_read_of_mem_enums {enum : Enumeration} (henum : enum ∈ interface.enums.values) :
    ∃ element, Enumeration.ofElement element = .ok enum := by
  obtain ⟨parts, hholds⟩ := h.exists_holds_enums
  obtain ⟨index, hindex⟩ := (Table.mem_values_iff _ enum).mp henum
  obtain ⟨-, element, -, hread⟩ := hholds.of_at? hindex
  exact ⟨element, hread⟩

theorem event_opcode {index : Nat} {event : Event}
    (hevent : interface.events.at? index = some event) : event.opcode.toNat = index := by
  have hnumber := h.event_number hevent
  have hone : 1 ≤ event.number := by
    rw [UInt16.le_iff_toNat_le, hnumber]
    simp
  rw [Event.opcode, UInt16.toNat_sub_of_le _ _ hone, hnumber]
  simp

end Built
end Interface

namespace Protocol

structure Built (number : Nat) (protocol : Protocol) : Prop where
  id_eq : protocol.id = number
  interfaces_ne : protocol.interfaces.values ≠ []
  names_nodup : protocol.interfaces.names.Nodup
  interface : ∀ index interface, protocol.interfaces.at? index = some interface →
    interface.Built ⟨number, index⟩ ∧ interface.family = protocol.family
      ∧ protocol.interfaces.nameAt? index = some interface.fullName

theorem exists_element_of_at? {root : Element} {id index : Nat} {protocol : Protocol}
    {interface : Interface} (h : Protocol.ofElement root id = .ok protocol)
    (hinterface : protocol.interfaces.at? index = some interface) :
    ∃ element, (root.childrenNamed "interface")[index]? = some element
      ∧ Interface.ofElement element ⟨id, index⟩ = .ok interface := by
  obtain ⟨-, name, draft, family, -, hdraft, -, rfl⟩ := (ofElement_eq_ok_iff root id protocol).mp h
  obtain ⟨-, child, hchild, hread⟩ := (Draft.reads_of_foldlM hdraft).interfaces.of_at? hinterface
  rw [childrenNamed_eq]
  exact ⟨child, hchild, hread⟩

theorem built_of_ofElement {root : Element} {id : Nat} {protocol : Protocol}
    (h : Protocol.ofElement root id = .ok protocol) : protocol.Built id := by
  obtain ⟨-, name, draft, family, _, hdraft, hfamily, rfl⟩ :=
    (ofElement_eq_ok_iff root id protocol).mp h
  have hreads := Draft.reads_of_foldlM hdraft
  obtain ⟨hsome, hall⟩ := (commonFamily_eq_ok_iff _ family).mp hfamily
  refine ⟨rfl, hsome, hreads.interfaces.nodup, ?_⟩
  intro index interface hinterface
  obtain ⟨hname, child, -, hread⟩ := hreads.interfaces.of_at? hinterface
  refine ⟨Interface.built_of_ofElement hread, ?_, hname⟩
  exact hall interface ((Table.mem_values_iff _ interface).mpr ⟨index, hinterface⟩)

namespace Built

variable {id : Nat} {protocol : Protocol} (h : protocol.Built id)

include h

theorem family_eq {interface : Interface} (hmem : interface ∈ protocol.interfaces.values) :
    interface.family = protocol.family := by
  obtain ⟨index, hindex⟩ := (Table.mem_values_iff _ interface).mp hmem
  exact (h.interface index interface hindex).2.1

theorem fullName_of_get? {name : String} {interface : Interface}
    (hget : protocol.interfaces.get? name = some interface) : interface.fullName = name := by
  obtain ⟨index, hname, hat⟩ := Table.exists_at?_of_get? hget
  rw [(h.interface index interface hat).2.2, Option.some.injEq] at hname
  exact hname

theorem family_ne : protocol.family ≠ "" ∧ '_' ∉ protocol.family.toList := by
  obtain ⟨interface, hmem⟩ := List.exists_mem_of_ne_nil _ h.interfaces_ne
  obtain ⟨index, hindex⟩ := (Table.mem_values_iff _ interface).mp hmem
  obtain ⟨hbuilt, hfamily, -⟩ := h.interface index interface hindex
  rw [← hfamily]
  exact ⟨hbuilt.family_ne, hbuilt.underscore_notMem⟩

end Built
end Protocol
end Waybind
