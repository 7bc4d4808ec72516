import Mathlib.Data.List.Forall2
import Waybind.Proofs.Protocol.Basic
import Waybind.Proofs.Table
import Waybind.Protocol.OfElement

/-!
This module contains what it takes to read a protocol: for every element, when it is read and to
what. For elements with children there is first what reading one child can do to the parts read so
far, and then what all children together leave.
-/

namespace Waybind

open Xml (Element)

def named (name : String) (children : List Element) : List Element :=
  children.filter (·.name == name)

theorem childrenNamed_eq (element : Element) (name : String) :
    element.childrenNamed name = named name element.children := by
  rfl

theorem named_append (name : String) (children : List Element) (child : Element) :
    named name (children ++ [child]) =
      named name children ++ if child.name = name then [child] else [] := by
  by_cases h : child.name = name
  · simp [named, h]
  · simp [named, h]

theorem exists_of_mem_left {α β : Type} {R : α → β → Prop} {parts : List α} {values : List β}
    (h : List.Forall₂ R parts values) : ∀ part ∈ parts, ∃ value ∈ values, R part value := by
  induction h with
  | nil => simp
  | cons hpart _ ih =>
    intro part hmem
    rw [List.mem_cons] at hmem
    rcases hmem with rfl | hmem
    · exact ⟨_, by simp, hpart⟩
    · obtain ⟨value, hvalue, hR⟩ := ih part hmem
      exact ⟨value, List.mem_cons_of_mem _ hvalue, hR⟩

theorem exists_of_mem_right {α β : Type} {R : α → β → Prop} {parts : List α} {values : List β}
    (h : List.Forall₂ R parts values) : ∀ value ∈ values, ∃ part ∈ parts, R part value :=
  exists_of_mem_left h.flip

namespace Arg

theorem ofElement_eq_ok_iff (element : Element) (parent : MessageId) (arg : Arg) :
    Arg.ofElement element parent = .ok arg ↔
      ∃ name typeName type allowNull summary, element.attr? "name" = some name
        ∧ element.attr? "type" = some typeName ∧ WireType.ofName? typeName = some type
        ∧ boolAttr? element "allow-null" = some allowNull ∧ ¬ (allowNull = true ∧ type = .newId)
        ∧ Arg.readSummary element = .ok summary
        ∧ ⟨parent, name, type, element.attr? "interface", element.attr? "enum", allowNull,
          summary⟩ = arg := by
  unfold Arg.ofElement
  cases element.attr? "name" with
  | none => simp
  | some name =>
    cases element.attr? "type" with
    | none => simp
    | some typeName =>
      cases htype : WireType.ofName? typeName with
      | none => simp [htype]
      | some type =>
        cases boolAttr? element "allow-null" with
        | none => simp [htype]
        | some allowNull =>
          cases allowNull with
          | false => simp [htype]
          | true =>
            by_cases hnew : type = .newId
            · simp [htype, hnew]
            · simp [htype, hnew]

end Arg

namespace Message

namespace Draft

theorem addChild_eq_ok_iff (id : MessageId) (draft draft' : Message.Draft) (child : Element) :
    draft.addChild id child = .ok draft' ↔
      child.name = "description"
          ∧ { draft with description := some (Description.ofElement child) } = draft'
        ∨ child.name = "arg" ∧ ∃ arg, Arg.ofElement child id = .ok arg
          ∧ { draft with args := draft.args.push arg } = draft' := by
  unfold addChild
  split
  · next h => simp [h]
  · next h =>
    cases Arg.ofElement child id with
    | error fault => simp [h]
    | ok arg => simp [h]
  · next hdescription harg =>
    simp only [reduceCtorEq, false_iff]
    rintro (⟨h, -⟩ | ⟨h, -⟩)
    · exact hdescription h
    · exact harg h

structure Reads (id : MessageId) (children : List Element) (draft : Message.Draft) : Prop where
  kinds : ∀ child ∈ children, child.name = "description" ∨ child.name = "arg"
  args : List.Forall₂ (fun child arg => Arg.ofElement child id = .ok arg) (named "arg" children)
    draft.args.toList

theorem reads_of_foldlM {id : MessageId} {children : List Element} {draft : Message.Draft}
    (h : children.foldlM (addChild id) ⟨none, #[]⟩ = .ok draft) : Reads id children draft := by
  refine Except.foldlM_invariant ?_ ?_ h
  · exact ⟨by simp, by simp [named]⟩
  · intro pre child draft draft' ih hstep
    rw [addChild_eq_ok_iff] at hstep
    rcases hstep with ⟨hname, rfl⟩ | ⟨hname, arg, harg, rfl⟩
    · refine ⟨List.forall_mem_append.mpr ⟨ih.kinds, by simp [hname]⟩, ?_⟩
      simpa [named_append, hname] using ih.args
    · refine ⟨List.forall_mem_append.mpr ⟨ih.kinds, by simp [hname]⟩, ?_⟩
      simp only [named_append, hname, ↓reduceIte, Array.toList_push]
      exact List.rel_append ih.args (.cons harg .nil)

end Draft

theorem ofElement_eq_ok_iff (element : Element) (name : String) (id : MessageId)
    (message : Message) :
    Message.ofElement element name id = .ok message ↔
      ∃ since deprecatedSince draft, readSince element = .ok since
        ∧ readDeprecatedSince element = .ok deprecatedSince
        ∧ element.children.foldlM (Draft.addChild id) ⟨none, #[]⟩ = .ok draft
        ∧ ⟨name, since, deprecatedSince, draft.description, draft.args.toList⟩ = message := by
  unfold Message.ofElement
  simp

theorem name_eq_of_ofElement {element : Element} {name : String} {id : MessageId}
    {message : Message} (h : Message.ofElement element name id = .ok message) :
    message.name = name := by
  obtain ⟨_, _, _, _, _, _, rfl⟩ := (ofElement_eq_ok_iff element name id message).mp h
  rfl

theorem parent_eq_of_ofElement {element : Element} {name : String} {id : MessageId}
    {message : Message} (h : Message.ofElement element name id = .ok message) :
    ∀ arg ∈ message.args, arg.parent = id := by
  obtain ⟨_, _, draft, _, _, hdraft, rfl⟩ := (ofElement_eq_ok_iff element name id message).mp h
  intro arg harg
  obtain ⟨child, -, hread⟩ := exists_of_mem_right (Draft.reads_of_foldlM hdraft).args arg harg
  obtain ⟨_, _, _, _, _, _, _, _, _, _, _, rfl⟩ := (Arg.ofElement_eq_ok_iff child id arg).mp hread
  rfl

end Message

theorem Request.ofElement_eq_ok_iff (element : Element) (opcode : UInt16) (id : MessageId)
    (request : Request) :
    Request.ofElement element opcode id = .ok request ↔
      ∃ name declared message, element.attr? "name" = some name
        ∧ RequestKind.ofElement element = .ok declared
        ∧ Message.ofElement element name id = .ok message
        ∧ ⟨message, opcode, if message.args.any (·.type == .newId) then .constructor else declared⟩
          = request := by
  unfold Request.ofElement
  cases element.attr? "name" with
  | none => simp
  | some name => simp

theorem Event.ofElement_eq_ok_iff (element : Element) (number : UInt16) (id : MessageId)
    (event : Event) :
    Event.ofElement element number id = .ok event ↔
      ∃ name message, element.attr? "name" = some name
        ∧ Message.ofElement element name id = .ok message ∧ ⟨message, number⟩ = event := by
  unfold Event.ofElement
  cases element.attr? "name" with
  | none => simp
  | some name => simp

theorem Entry.ofElement_eq_ok_iff (element : Element) (entry : Entry) :
    Entry.ofElement element = .ok entry ↔
      ∃ name text value since deprecatedSince, element.attr? "name" = some name
        ∧ element.attr? "value" = some text ∧ Numeral.literal? text = some value
        ∧ readSince element = .ok since ∧ readDeprecatedSince element = .ok deprecatedSince
        ∧ ⟨name, value, since, deprecatedSince, (Entry.readTexts element).1,
          (Entry.readTexts element).2⟩ = entry := by
  unfold Entry.ofElement
  cases element.attr? "name" with
  | none => simp
  | some name =>
    cases element.attr? "value" with
    | none => simp
    | some text =>
      cases hvalue : Numeral.literal? text with
      | none => simp [hvalue]
      | some value => simp [hvalue]

namespace Enumeration

namespace Draft

theorem addChild_eq_ok_iff (draft draft' : Enumeration.Draft) (child : Element) :
    draft.addChild child = .ok draft' ↔
      child.name = "description"
          ∧ { draft with description := some (Description.ofElement child) } = draft'
        ∨ child.name = "entry" ∧ ∃ entry, Entry.ofElement child = .ok entry
          ∧ draft.entries.contains entry.name = false
          ∧ { draft with entries := draft.entries.add entry.name entry } = draft' := by
  unfold addChild
  split
  · next h => simp [h]
  · next h =>
    cases Entry.ofElement child with
    | error fault => simp [h]
    | ok entry => cases hcontains : draft.entries.contains entry.name <;> simp [h, hcontains]
  · next hdescription hentry =>
    simp only [reduceCtorEq, false_iff]
    rintro (⟨h, -⟩ | ⟨h, -⟩)
    · exact hdescription h
    · exact hentry h

structure Reads (children : List Element) (draft : Enumeration.Draft) : Prop where
  kinds : ∀ child ∈ children, child.name = "description" ∨ child.name = "entry"
  entries : draft.entries.toTable.Holds (fun _ => Entry.ofElement) (·.name) (named "entry" children)

theorem reads_of_foldlM {children : List Element} {draft : Enumeration.Draft}
    (h : children.foldlM addChild ⟨none, .empty⟩ = .ok draft) : Reads children draft := by
  refine Except.foldlM_invariant ?_ ?_ h
  · exact ⟨by simp, .empty⟩
  · intro pre child draft draft' ih hstep
    rw [addChild_eq_ok_iff] at hstep
    rcases hstep with ⟨hname, rfl⟩ | ⟨hname, entry, hentry, hnew, rfl⟩
    · refine ⟨List.forall_mem_append.mpr ⟨ih.kinds, by simp [hname]⟩, ?_⟩
      simpa [named_append, hname] using ih.entries
    · refine ⟨List.forall_mem_append.mpr ⟨ih.kinds, by simp [hname]⟩, ?_⟩
      simp only [named_append, hname, ↓reduceIte]
      exact ih.entries.add hentry hnew

end Draft

theorem ofElement_eq_ok_iff (element : Element) (enum : Enumeration) :
    Enumeration.ofElement element = .ok enum ↔
      ∃ name since bitfield draft, element.attr? "name" = some name
        ∧ readSince element = .ok since ∧ boolAttr? element "bitfield" = some bitfield
        ∧ element.children.foldlM Draft.addChild ⟨none, .empty⟩ = .ok draft
        ∧ ⟨name, since, bitfield, draft.description, draft.entries.toTable⟩ = enum
        ∧ enum.checkRange = .ok () := by
  unfold Enumeration.ofElement
  cases element.attr? "name" with
  | none => simp
  | some name =>
    cases boolAttr? element "bitfield" with
    | none => simp
    | some bitfield => simp; grind

end Enumeration

namespace Interface

theorem readName_eq_ok_iff (element : Element) (family name : String) :
    Interface.readName element = .ok (family, name) ↔
      element.attr? "name" = some (family ++ "_" ++ name) ∧ '_' ∉ family.toList ∧ family ≠ ""
        ∧ name ≠ "" := by
  unfold Interface.readName
  cases element.attr? "name" with
  | none => simp
  | some declared =>
    have hsplit := splitName?_eq_some_iff declared
    cases hname : splitName? declared with
    | none =>
      simp only [hname, reduceCtorEq, Option.some.injEq, false_iff] at hsplit ⊢
      rintro ⟨hdeclared, hfamily, -⟩
      exact hsplit family name ⟨hdeclared, hfamily⟩
    | some parts =>
      simp only [hname, Option.some.injEq] at hsplit ⊢
      rw [← and_assoc, ← hsplit]
      split
      · next h =>
        simp only [Bool.or_eq_true, String.isEmpty_iff] at h
        grind
      · next h =>
        simp only [Bool.or_eq_true, String.isEmpty_iff] at h
        grind

theorem readVersion_eq_ok_iff (element : Element) (version : UInt32) :
    Interface.readVersion element = .ok version ↔
      ∃ text value, element.attr? "version" = some text
        ∧ Numeral.signed Numeral.maxInt64 text = .ok value
        ∧ 0 < value ∧ value ≤ Numeral.maxUInt32 ∧ UInt32.ofNat value.toNat = version := by
  unfold Interface.readVersion
  cases element.attr? "version" with
  | none => simp
  | some text =>
    cases hvalue : Numeral.signed Numeral.maxInt64 text with
    | error fault => simp [hvalue]
    | ok value =>
      simp only [hvalue, Option.some.injEq, exists_and_left, exists_eq_left', Except.ok.injEq]
      split
      · next hpos => simp [Int.not_lt.mpr hpos]
      · next hpos =>
        rw [Int.not_le] at hpos
        split
        · next hmax => simp [hpos, hmax]
        · next hmax => simp [hmax]

namespace Draft

theorem addRequest_eq_ok_iff (id : InterfaceId) (draft draft' : Interface.Draft)
    (child : Element) :
    draft.addRequest id child = .ok draft' ↔
      draft.requests.size < UInt16.size
        ∧ ∃ request, Request.ofElement child (UInt16.ofNat draft.requests.size)
            ⟨id, .request, draft.requests.size⟩ = .ok request
          ∧ draft.requests.contains request.name = false
          ∧ { draft with requests := draft.requests.add request.name request } = draft' := by
  unfold addRequest
  by_cases hsize : draft.requests.size < UInt16.size
  · simp only [hsize, ↓reduceIte, true_and]
    cases Request.ofElement child (UInt16.ofNat draft.requests.size)
      ⟨id, .request, draft.requests.size⟩ with
    | error fault => simp
    | ok request => cases hcontains : draft.requests.contains request.name <;> simp [hcontains]
  · simp only [hsize, ↓reduceIte, reduceCtorEq, false_and]

theorem addEvent_eq_ok_iff (id : InterfaceId) (draft draft' : Interface.Draft) (child : Element) :
    draft.addEvent id child = .ok draft' ↔
      draft.events.size + 1 < UInt16.size
        ∧ ∃ event, Event.ofElement child (UInt16.ofNat (draft.events.size + 1))
            ⟨id, .event, draft.events.size⟩ = .ok event
          ∧ draft.events.contains event.name = false
          ∧ { draft with events := draft.events.add event.name event } = draft' := by
  unfold addEvent
  by_cases hsize : draft.events.size + 1 < UInt16.size
  · simp only [hsize, ↓reduceIte, true_and]
    cases Event.ofElement child (UInt16.ofNat (draft.events.size + 1))
      ⟨id, .event, draft.events.size⟩ with
    | error fault => simp
    | ok event => cases hcontains : draft.events.contains event.name <;> simp [hcontains]
  · simp only [hsize, ↓reduceIte, reduceCtorEq, false_and]

theorem addEnum_eq_ok_iff (draft draft' : Interface.Draft) (child : Element) :
    draft.addEnum child = .ok draft' ↔
      ∃ enum, Enumeration.ofElement child = .ok enum
        ∧ draft.enums.contains enum.name = false
        ∧ { draft with enums := draft.enums.add enum.name enum } = draft' := by
  unfold addEnum
  cases Enumeration.ofElement child with
  | error fault => simp
  | ok enum => cases hcontains : draft.enums.contains enum.name <;> simp [hcontains]

theorem addChild_eq_ok_iff (id : InterfaceId) (draft draft' : Interface.Draft) (child : Element) :
    draft.addChild id child = .ok draft' ↔
      child.name = "description"
          ∧ { draft with description := some (Description.ofElement child) } = draft'
        ∨ child.name = "request" ∧ draft.addRequest id child = .ok draft'
        ∨ child.name = "event" ∧ draft.addEvent id child = .ok draft'
        ∨ child.name = "enum" ∧ draft.addEnum child = .ok draft' := by
  unfold addChild
  split
  · next h => simp [h]
  · next h => simp [h]
  · next h => simp [h]
  · next h => simp [h]
  · next hdescription hrequest hevent henum =>
    simp only [reduceCtorEq, false_iff]
    rintro (⟨h, -⟩ | ⟨h, -⟩ | ⟨h, -⟩ | ⟨h, -⟩)
    · exact hdescription h
    · exact hrequest h
    · exact hevent h
    · exact henum h

def readRequest (id : InterfaceId) (index : Nat) (child : Element) :
    Except Message.Fault Request :=
  Request.ofElement child (UInt16.ofNat index) ⟨id, .request, index⟩

def readEvent (id : InterfaceId) (index : Nat) (child : Element) : Except Message.Fault Event :=
  Event.ofElement child (UInt16.ofNat (index + 1)) ⟨id, .event, index⟩

/--
The parts of an interface after its children: one for each element of the three kinds, each with its
position among those of its kind, and not more messages than there are numbers for.
-/
structure Reads (id : InterfaceId) (children : List Element) (draft : Interface.Draft) :
    Prop where
  kinds : ∀ child ∈ children, child.name = "description" ∨ child.name = "request"
    ∨ child.name = "event" ∨ child.name = "enum"
  requests : draft.requests.toTable.Holds (readRequest id) (·.name) (named "request" children)
  events : draft.events.toTable.Holds (readEvent id) (·.name) (named "event" children)
  enums : draft.enums.toTable.Holds (fun _ => Enumeration.ofElement) (·.name)
    (named "enum" children)
  requests_le : (named "request" children).length ≤ UInt16.size
  events_lt : (named "event" children).length < UInt16.size

theorem reads_of_foldlM {id : InterfaceId} {children : List Element} {draft : Interface.Draft}
    (h : children.foldlM (addChild id) .empty = .ok draft) : Reads id children draft := by
  refine Except.foldlM_invariant ?_ ?_ h
  · exact ⟨by simp, .empty, .empty, .empty, by simp [named], by decide⟩
  · intro pre child draft draft' ih hstep
    rw [addChild_eq_ok_iff] at hstep
    -- a child adds to the parts of its own kind and leaves the two other tables
    rcases hstep with ⟨hname, rfl⟩ | ⟨hname, hadd⟩ | ⟨hname, hadd⟩ | ⟨hname, hadd⟩
    · refine ⟨List.forall_mem_append.mpr ⟨ih.kinds, by simp [hname]⟩, ?_, ?_, ?_, ?_, ?_⟩ <;>
        simp only [named_append, hname, String.reduceEq, ↓reduceIte, List.append_nil]
      · exact ih.requests
      · exact ih.events
      · exact ih.enums
      · exact ih.requests_le
      · exact ih.events_lt
    · obtain ⟨hsize, request, hrequest, hnew, rfl⟩ :=
        (addRequest_eq_ok_iff id draft draft' child).mp hadd
      refine ⟨List.forall_mem_append.mpr ⟨ih.kinds, by simp [hname]⟩, ?_, ?_, ?_, ?_, ?_⟩ <;>
        simp only [named_append, hname, String.reduceEq, ↓reduceIte, List.append_nil]
      · exact ih.requests.add hrequest hnew
      · exact ih.events
      · exact ih.enums
      · rw [Table.Draft.size_eq, ih.requests.length_eq] at hsize
        rw [List.length_append]
        exact hsize
      · exact ih.events_lt
    · obtain ⟨hsize, event, hevent, hnew, rfl⟩ :=
        (addEvent_eq_ok_iff id draft draft' child).mp hadd
      refine ⟨List.forall_mem_append.mpr ⟨ih.kinds, by simp [hname]⟩, ?_, ?_, ?_, ?_, ?_⟩ <;>
        simp only [named_append, hname, String.reduceEq, ↓reduceIte, List.append_nil]
      · exact ih.requests
      · exact ih.events.add hevent hnew
      · exact ih.enums
      · exact ih.requests_le
      · rw [Table.Draft.size_eq, ih.events.length_eq] at hsize
        rw [List.length_append]
        exact hsize
    · obtain ⟨enum, henum, hnew, rfl⟩ := (addEnum_eq_ok_iff draft draft' child).mp hadd
      refine ⟨List.forall_mem_append.mpr ⟨ih.kinds, by simp [hname]⟩, ?_, ?_, ?_, ?_, ?_⟩ <;>
        simp only [named_append, hname, String.reduceEq, ↓reduceIte, List.append_nil]
      · exact ih.requests
      · exact ih.events
      · exact ih.enums.add henum hnew
      · exact ih.requests_le
      · exact ih.events_lt

end Draft

theorem ofElement_eq_ok_iff (element : Element) (id : InterfaceId) (interface : Interface) :
    Interface.ofElement element id = .ok interface ↔
      ∃ family name version draft, Interface.readName element = .ok (family, name)
        ∧ Interface.readVersion element = .ok version
        ∧ element.children.foldlM (Draft.addChild id) .empty = .ok draft
        ∧ ⟨id, family, name, version, draft.description, draft.requests.toTable,
          draft.events.toTable, draft.enums.toTable⟩ = interface := by
  unfold Interface.ofElement
  simp

end Interface

namespace Protocol

namespace Draft

theorem addChild_eq_ok_iff (id : Nat) (draft draft' : Protocol.Draft) (child : Element) :
    draft.addChild id child = .ok draft' ↔
      child.name = "copyright" ∧ { draft with copyright := some child.text } = draft'
        ∨ child.name = "description"
          ∧ { draft with description := some (Description.ofElement child) } = draft'
        ∨ child.name = "interface" ∧ ∃ interface,
          Interface.ofElement child ⟨id, draft.interfaces.size⟩ = .ok interface
          ∧ draft.interfaces.contains interface.fullName = false
          ∧ { draft with interfaces := draft.interfaces.add interface.fullName interface }
            = draft' := by
  unfold addChild
  split
  · next h => simp [h]
  · next h => simp [h]
  · next h =>
    cases Interface.ofElement child ⟨id, draft.interfaces.size⟩ with
    | error fault => simp [h]
    | ok interface =>
      cases hcontains : draft.interfaces.contains interface.fullName <;> simp [h, hcontains]
  · next hcopyright hdescription hinterface =>
    simp only [reduceCtorEq, false_iff]
    rintro (⟨h, -⟩ | ⟨h, -⟩ | ⟨h, -⟩)
    · exact hcopyright h
    · exact hdescription h
    · exact hinterface h

def readInterface (id index : Nat) (child : Element) : Except Interface.Fault Interface :=
  Interface.ofElement child ⟨id, index⟩

structure Reads (id : Nat) (children : List Element) (draft : Protocol.Draft) : Prop where
  kinds : ∀ child ∈ children, child.name = "copyright" ∨ child.name = "description"
    ∨ child.name = "interface"
  interfaces : draft.interfaces.toTable.Holds (readInterface id) (·.fullName)
    (named "interface" children)

theorem reads_of_foldlM {id : Nat} {children : List Element} {draft : Protocol.Draft}
    (h : children.foldlM (addChild id) ⟨none, none, .empty⟩ = .ok draft) :
    Reads id children draft := by
  refine Except.foldlM_invariant ?_ ?_ h
  · exact ⟨by simp, .empty⟩
  · intro pre child draft draft' ih hstep
    rw [addChild_eq_ok_iff] at hstep
    rcases hstep with ⟨hname, rfl⟩ | ⟨hname, rfl⟩ | ⟨hname, interface, hinterface, hnew, rfl⟩
    · refine ⟨List.forall_mem_append.mpr ⟨ih.kinds, by simp [hname]⟩, ?_⟩
      simpa [named_append, hname] using ih.interfaces
    · refine ⟨List.forall_mem_append.mpr ⟨ih.kinds, by simp [hname]⟩, ?_⟩
      simpa [named_append, hname] using ih.interfaces
    · refine ⟨List.forall_mem_append.mpr ⟨ih.kinds, by simp [hname]⟩, ?_⟩
      simp only [named_append, hname, ↓reduceIte]
      exact ih.interfaces.add hinterface hnew

end Draft

theorem commonFamily_eq_ok_iff (interfaces : Table Interface) (family : String) :
    Protocol.commonFamily interfaces = .ok family ↔
      interfaces.values ≠ [] ∧ ∀ interface ∈ interfaces.values, interface.family = family := by
  unfold Protocol.commonFamily
  split
  · next h => simp [h]
  · next first rest h =>
    rw [h]
    split
    · next other hother =>
      have := List.find?_some hother
      have := List.mem_of_find?_eq_some hother
      simp only [reduceCtorEq, false_iff]
      grind
    · next hnone =>
      rw [List.find?_eq_none] at hnone
      simp only [Except.ok.injEq]
      grind

theorem ofElement_eq_ok_iff (root : Element) (id : Nat) (protocol : Protocol) :
    Protocol.ofElement root id = .ok protocol ↔
      root.name = "protocol" ∧ ∃ name draft family, root.attr? "name" = some name
        ∧ root.children.foldlM (Draft.addChild id) ⟨none, none, .empty⟩ = .ok draft
        ∧ Protocol.commonFamily draft.interfaces.toTable = .ok family
        ∧ ⟨id, name, family, draft.copyright, draft.description, draft.interfaces.toTable⟩
          = protocol := by
  unfold Protocol.ofElement Protocol.readContent
  by_cases hroot : root.name = "protocol"
  · cases root.attr? "name" with
    | none => simp [hroot]
    | some name => simp [hroot]
  · simp [hroot]

end Protocol
end Waybind
