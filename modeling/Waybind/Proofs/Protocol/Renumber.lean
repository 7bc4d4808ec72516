import Waybind.Proofs.Except
import Waybind.Protocol.OfElement

/-!
This module contains the renumbering of protocols. To read a document as the protocol with another
number is the same as to renumber the protocol that is read from it. In particular, whether a
document is accepted and the family of its protocol do not depend on the number.
-/

namespace Waybind

open Xml (Element)

namespace Table

variable {α β : Type} (f : α → β)

def map (table : Table α) : Table β :=
  ⟨table.entries.map fun entry => (entry.1, f entry.2)⟩

@[simp]
theorem names_map (table : Table α) : (table.map f).names = table.names := by
  simp [map, names]

@[simp]
theorem values_map (table : Table α) : (table.map f).values = table.values.map f := by
  simp [map, values]

@[simp]
theorem isEmpty_map (table : Table α) : (table.map f).isEmpty = table.isEmpty := by
  simp [map, isEmpty]

@[simp]
theorem get?_map (table : Table α) (name : String) :
    (table.map f).get? name = (table.get? name).map f := by
  obtain ⟨entries⟩ := table
  simp only [map, get?]
  induction entries with
  | nil => rfl
  | cons entry entries ih =>
    rw [List.map_cons, List.lookup_cons, List.lookup_cons]
    split
    · rfl
    · exact ih

namespace Draft

def map (draft : Draft α) : Draft β where
  entries := draft.entries.map fun entry => (entry.1, f entry.2)
  taken := draft.taken
  mem_taken := by
    intro name
    rw [draft.mem_taken]
    simp

@[simp]
theorem map_empty : (empty : Draft α).map f = empty := by
  simp [map, empty]

@[simp]
theorem map_add (draft : Draft α) (name : String) (value : α) :
    (draft.add name value).map f = (draft.map f).add name (f value) := by
  simp [map, add]

@[simp]
theorem toTable_map (draft : Draft α) : (draft.map f).toTable = draft.toTable.map f := by
  simp [map, toTable, Table.map]

@[simp]
theorem size_map (draft : Draft α) : (draft.map f).size = draft.size := by
  simp [map, size]

@[simp]
theorem contains_map (draft : Draft α) (name : String) :
    (draft.map f).contains name = draft.contains name := by
  rfl

end Draft
end Table

section Renumber

variable (f : Nat → Nat)

def InterfaceId.renumber (id : InterfaceId) : InterfaceId :=
  { id with protocol := f id.protocol }

def MessageId.renumber (id : MessageId) : MessageId :=
  { id with interface := id.interface.renumber f }

def Arg.renumber (arg : Arg) : Arg :=
  { arg with parent := arg.parent.renumber f }

def Message.renumber (message : Message) : Message :=
  { message with args := message.args.map (Arg.renumber f) }

def Request.renumber (request : Request) : Request :=
  { request with toMessage := request.toMessage.renumber f }

def Event.renumber (event : Event) : Event :=
  { event with toMessage := event.toMessage.renumber f }

def Interface.renumber (interface : Interface) : Interface :=
  { interface with
    id := interface.id.renumber f
    requests := interface.requests.map (Request.renumber f)
    events := interface.events.map (Event.renumber f) }

def Protocol.renumber (protocol : Protocol) : Protocol :=
  { protocol with
    id := f protocol.id
    interfaces := protocol.interfaces.map (Interface.renumber f) }

theorem Arg.ofElement_renumber (element : Element) (parent : MessageId) :
    Arg.ofElement element (parent.renumber f) =
      (Arg.ofElement element parent).map (Arg.renumber f) := by
  unfold Arg.ofElement
  cases element.attr? "name" with
  | none => rfl
  | some name =>
    cases element.attr? "type" with
    | none => rfl
    | some typeName =>
      simp only
      cases WireType.ofName? typeName with
      | none => rfl
      | some type =>
        cases boolAttr? element "allow-null" with
        | none => rfl
        | some allowNull =>
          simp only
          split
          · rfl
          · cases Arg.readSummary element with
            | error fault => rfl
            | ok summary => rfl

def Message.Draft.renumber (draft : Message.Draft) : Message.Draft :=
  { draft with args := draft.args.map (Arg.renumber f) }

theorem Message.Draft.addChild_renumber (id : MessageId) (draft : Message.Draft)
    (child : Element) :
    addChild (id.renumber f) (draft.renumber f) child =
      (addChild id draft child).map (renumber f) := by
  unfold addChild
  split
  · rfl
  · rw [Arg.ofElement_renumber]
    cases Arg.ofElement child id with
    | error fault => rfl
    | ok arg => simp [Except.map, renumber]
  · rfl

theorem Message.ofElement_renumber (element : Element) (name : String) (id : MessageId) :
    Message.ofElement element name (id.renumber f) =
      (Message.ofElement element name id).map (Message.renumber f) := by
  have hchildren := Except.foldlM_map (Message.Draft.addChild_renumber f id) element.children
    ⟨none, #[]⟩
  have hstart : Message.Draft.renumber f ⟨none, #[]⟩ = ⟨none, #[]⟩ := by
    simp [Message.Draft.renumber]
  rw [hstart] at hchildren
  unfold Message.ofElement
  rw [hchildren]
  cases (readSince element).mapError Message.Fault.since with
  | error fault => rfl
  | ok since =>
    cases (readDeprecatedSince element).mapError Message.Fault.deprecatedSince with
    | error fault => rfl
    | ok deprecatedSince =>
      cases element.children.foldlM (Message.Draft.addChild id) ⟨none, #[]⟩ with
      | error fault => rfl
      | ok draft =>
        simp [bind, Except.bind, pure, Except.pure, Except.map, Message.Draft.renumber,
          Message.renumber]

theorem Request.ofElement_renumber (element : Element) (opcode : UInt16) (id : MessageId) :
    Request.ofElement element opcode (id.renumber f) =
      (Request.ofElement element opcode id).map (Request.renumber f) := by
  unfold Request.ofElement
  cases element.attr? "name" with
  | none => rfl
  | some name =>
    cases RequestKind.ofElement element with
    | error fault => rfl
    | ok declared =>
      simp only [Message.ofElement_renumber]
      cases Message.ofElement element name id with
      | error fault => rfl
      | ok message =>
        have hkind : ((message.renumber f).args.any (·.type == .newId)) =
            message.args.any (·.type == .newId) := by
          simp [Message.renumber, Arg.renumber, List.any_map, Function.comp_def]
        simp [bind, Except.bind, pure, Except.pure, Except.map, hkind, Request.renumber]

theorem Event.ofElement_renumber (element : Element) (number : UInt16) (id : MessageId) :
    Event.ofElement element number (id.renumber f) =
      (Event.ofElement element number id).map (Event.renumber f) := by
  unfold Event.ofElement
  cases element.attr? "name" with
  | none => rfl
  | some name =>
    simp only [Message.ofElement_renumber]
    cases Message.ofElement element name id with
    | error fault => rfl
    | ok message => rfl

namespace Interface.Draft

def renumber (draft : Interface.Draft) : Interface.Draft :=
  { draft with
    requests := draft.requests.map (Request.renumber f)
    events := draft.events.map (Event.renumber f) }

theorem addRequest_renumber (id : InterfaceId) (draft : Interface.Draft) (child : Element) :
    addRequest (id.renumber f) (draft.renumber f) child =
      (addRequest id draft child).map (renumber f) := by
  have hread (index : Nat) := Request.ofElement_renumber f child (UInt16.ofNat index)
    ⟨id, .request, index⟩
  have hsize : (draft.renumber f).requests.size = draft.requests.size :=
    Table.Draft.size_map _ _
  simp only [MessageId.renumber] at hread
  simp only [addRequest, hsize, hread]
  split
  · cases Request.ofElement child (UInt16.ofNat draft.requests.size)
        ⟨id, .request, draft.requests.size⟩ with
    | error fault => rfl
    | ok request =>
      have htaken : (draft.renumber f).requests.contains (request.renumber f).name =
          draft.requests.contains request.name := Table.Draft.contains_map _ _ _
      simp only [Except.map, htaken]
      split
      · rfl
      · simp [renumber, Request.renumber, Message.renumber]
  · rfl

theorem addEvent_renumber (id : InterfaceId) (draft : Interface.Draft) (child : Element) :
    addEvent (id.renumber f) (draft.renumber f) child =
      (addEvent id draft child).map (renumber f) := by
  have hread (index : Nat) := Event.ofElement_renumber f child (UInt16.ofNat (index + 1))
    ⟨id, .event, index⟩
  have hsize : (draft.renumber f).events.size = draft.events.size := Table.Draft.size_map _ _
  simp only [MessageId.renumber] at hread
  simp only [addEvent, hsize, hread]
  split
  · cases Event.ofElement child (UInt16.ofNat (draft.events.size + 1))
        ⟨id, .event, draft.events.size⟩ with
    | error fault => rfl
    | ok event =>
      have htaken : (draft.renumber f).events.contains (event.renumber f).name =
          draft.events.contains event.name := Table.Draft.contains_map _ _ _
      simp only [Except.map, htaken]
      split
      · rfl
      · simp [renumber, Event.renumber, Message.renumber]
  · rfl

theorem addEnum_renumber (draft : Interface.Draft) (child : Element) :
    addEnum (draft.renumber f) child = (addEnum draft child).map (renumber f) := by
  unfold addEnum
  cases Enumeration.ofElement child with
  | error fault => rfl
  | ok enum =>
    have htaken : (draft.renumber f).enums.contains enum.name = draft.enums.contains enum.name :=
      rfl
    simp only [htaken]
    split
    · rfl
    · rfl

theorem addChild_renumber (id : InterfaceId) (draft : Interface.Draft) (child : Element) :
    addChild (id.renumber f) (draft.renumber f) child =
      (addChild id draft child).map (renumber f) := by
  unfold addChild
  split
  · rfl
  · exact addRequest_renumber f id draft child
  · exact addEvent_renumber f id draft child
  · exact addEnum_renumber f draft child
  · rfl

end Interface.Draft

theorem Interface.ofElement_renumber (element : Element) (id : InterfaceId) :
    Interface.ofElement element (id.renumber f) =
      (Interface.ofElement element id).map (Interface.renumber f) := by
  have hchildren := Except.foldlM_map (Interface.Draft.addChild_renumber f id) element.children
    .empty
  have hstart : Interface.Draft.empty.renumber f = .empty := by
    simp [Interface.Draft.renumber, Interface.Draft.empty]
  rw [hstart] at hchildren
  unfold Interface.ofElement
  rw [hchildren]
  cases Interface.readName element with
  | error fault => rfl
  | ok name =>
    cases Interface.readVersion element with
    | error fault => rfl
    | ok version =>
      cases element.children.foldlM (Interface.Draft.addChild id) .empty with
      | error fault => rfl
      | ok draft =>
        simp [bind, Except.bind, pure, Except.pure, Except.map, Interface.Draft.renumber,
          Interface.renumber]

def Protocol.Draft.renumber (draft : Protocol.Draft) : Protocol.Draft :=
  { draft with interfaces := draft.interfaces.map (Interface.renumber f) }

theorem Protocol.Draft.addChild_renumber (id : Nat) (draft : Protocol.Draft) (child : Element) :
    addChild (f id) (draft.renumber f) child = (addChild id draft child).map (renumber f) := by
  have hread (index : Nat) := Interface.ofElement_renumber f child ⟨id, index⟩
  have hsize : (draft.renumber f).interfaces.size = draft.interfaces.size :=
    Table.Draft.size_map _ _
  simp only [InterfaceId.renumber] at hread
  simp only [addChild, hsize, hread]
  split
  · rfl
  · rfl
  · cases Interface.ofElement child ⟨id, draft.interfaces.size⟩ with
    | error fault => rfl
    | ok interface =>
      have htaken : (draft.renumber f).interfaces.contains (interface.renumber f).fullName =
          draft.interfaces.contains interface.fullName := Table.Draft.contains_map _ _ _
      simp only [Except.map, htaken]
      split
      · rfl
      · simp [renumber, Interface.renumber, Interface.fullName]
  · rfl

theorem Protocol.commonFamily_renumber (interfaces : Table Interface) :
    commonFamily (interfaces.map (Interface.renumber f)) = commonFamily interfaces := by
  unfold commonFamily
  rw [Table.values_map]
  cases interfaces.values with
  | nil => rfl
  | cons first rest =>
    have hother : (rest.map (Interface.renumber f)).find?
        (·.family != (first.renumber f).family) =
          (rest.find? (·.family != first.family)).map (Interface.renumber f) := by
      rw [List.find?_map]
      rfl
    simp only [List.map_cons, hother]
    cases rest.find? (·.family != first.family) with
    | none => rfl
    | some other => rfl

theorem Protocol.readContent_renumber (root : Element) (id : Nat) :
    Protocol.readContent root (f id) =
      (Protocol.readContent root id).map (Protocol.renumber f) := by
  have hchildren := Except.foldlM_map (Protocol.Draft.addChild_renumber f id) root.children
    ⟨none, none, .empty⟩
  have hstart : Protocol.Draft.renumber f ⟨none, none, .empty⟩ = ⟨none, none, .empty⟩ := by
    simp [Protocol.Draft.renumber]
  rw [hstart] at hchildren
  unfold Protocol.readContent
  rw [hchildren]
  cases root.attr? "name" with
  | none => rfl
  | some name =>
    cases root.children.foldlM (Protocol.Draft.addChild id) ⟨none, none, .empty⟩ with
    | error fault => rfl
    | ok draft =>
      have hinterfaces : (draft.renumber f).interfaces.toTable =
          draft.interfaces.toTable.map (Interface.renumber f) := Table.Draft.toTable_map _ _
      simp only [Except.map, bind, Except.bind, hinterfaces, Protocol.commonFamily_renumber]
      cases Protocol.commonFamily draft.interfaces.toTable with
      | error fault => rfl
      | ok family => rfl

theorem Protocol.ofElement_renumber (root : Element) (id : Nat) :
    Protocol.ofElement root (f id) =
      (Protocol.ofElement root id).map (Protocol.renumber f) := by
  unfold Protocol.ofElement
  split
  · rw [Protocol.readContent_renumber]
    cases Protocol.readContent root id with
    | error fault => rfl
    | ok protocol => rfl
  · rfl

end Renumber

end Waybind
