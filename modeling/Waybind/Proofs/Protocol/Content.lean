import Waybind.Proofs.Protocol.Grammar

/-!
This module contains what a protocol has in common with the document that it is read from. Every part
of it is declared by an element, in the order of the elements of that kind, and says what the element
says.
-/

namespace Waybind

open Xml (Element)
open Numeral (IsUnsigned IsSigned IsLiteral maxUInt32 maxInt64)

def IsSince (element : Element) (since : UInt32) : Prop :=
  element.attr? "since" = none ∧ since = 1
    ∨ ∃ text, element.attr? "since" = some text ∧ IsUnsigned maxUInt32 text since.toNat

def IsDeprecatedSince (element : Element) (since : Option UInt32) : Prop :=
  Option.Rel (fun text n => IsUnsigned maxUInt32 text n.toNat) (element.attr? "deprecated-since")
    since

def lastDescription? (element : Element) : Option Description :=
  (element.childrenNamed "description").getLast?.map Description.ofElement

structure Arg.DeclaredBy (parent : MessageId) (element : Element) (arg : Arg) : Prop where
  parent_eq : arg.parent = parent
  name_eq : element.attr? "name" = some arg.name
  type_eq : element.attr? "type" = some arg.type.name
  interface_eq : element.attr? "interface" = arg.interface
  enum_eq : element.attr? "enum" = arg.enum
  allowNull_iff : arg.allowNull = true ↔ element.attr? "allow-null" = some "true"
  notNullable : arg.type = .newId → arg.allowNull = false
  summary_eq : arg.summary =
    ((lastDescription? element).bind (·.summary)).or (element.attr? "summary")

structure Message.DeclaredBy (id : MessageId) (element : Element) (message : Message) : Prop where
  kinds : ∀ child ∈ element.children, child.name = "description" ∨ child.name = "arg"
  name_eq : element.attr? "name" = some message.name
  since : IsSince element message.since
  deprecatedSince : IsDeprecatedSince element message.deprecatedSince
  description_eq : message.description = lastDescription? element
  args : List.Forall₂ (Arg.DeclaredBy id) (element.childrenNamed "arg") message.args

def CreatesObject (element : Element) : Prop :=
  ∃ child ∈ element.childrenNamed "arg", child.attr? "type" = some "new_id"

structure Request.DeclaredBy (id : InterfaceId) (index : Nat) (element : Element)
    (request : Request) : Prop where
  message : request.toMessage.DeclaredBy ⟨id, .request, index⟩ element
  opcode_eq : request.opcode.toNat = index
  constructor_iff : request.kind = .constructor ↔
    element.attr? "type" = some "constructor" ∨ CreatesObject element
  destructor_iff : request.kind = .destructor ↔
    element.attr? "type" = some "destructor" ∧ ¬ CreatesObject element
  normal_iff : request.kind = .normal ↔ element.attr? "type" = none ∧ ¬ CreatesObject element

structure Event.DeclaredBy (id : InterfaceId) (index : Nat) (element : Element) (event : Event) :
    Prop where
  message : event.toMessage.DeclaredBy ⟨id, .event, index⟩ element
  number_eq : event.number.toNat = index + 1

structure Entry.DeclaredBy (element : Element) (entry : Entry) : Prop where
  name_eq : element.attr? "name" = some entry.name
  value : ∃ text, element.attr? "value" = some text ∧ IsLiteral text entry.value
  since : IsSince element entry.since
  deprecatedSince : IsDeprecatedSince element entry.deprecatedSince
  /-- The last summary that there is counts. -/
  summary_eq : entry.summary =
    ((element.childrenNamed "description").reverse.findSome? (·.attr? "summary")).or
      (element.attr? "summary")
  description_eq : entry.description = lastDescription? element

structure Enumeration.DeclaredBy (element : Element) (enum : Enumeration) : Prop where
  kinds : ∀ child ∈ element.children, child.name = "description" ∨ child.name = "entry"
  name_eq : element.attr? "name" = some enum.name
  since : IsSince element enum.since
  bitfield_iff : enum.bitfield = true ↔ element.attr? "bitfield" = some "true"
  description_eq : enum.description = lastDescription? element
  entries : enum.entries.Lists (fun _ => Entry.DeclaredBy) (·.name) (element.childrenNamed "entry")

structure Interface.DeclaredBy (id : InterfaceId) (element : Element) (interface : Interface) :
    Prop where
  kinds : ∀ child ∈ element.children, child.name = "description" ∨ child.name = "request"
    ∨ child.name = "event" ∨ child.name = "enum"
  id_eq : interface.id = id
  name_eq : element.attr? "name" = some interface.fullName
  version : ∃ text, element.attr? "version" = some text
    ∧ IsSigned maxInt64 text interface.version.toNat
  version_pos : 0 < interface.version.toNat
  description_eq : interface.description = lastDescription? element
  requests : interface.requests.Lists (Request.DeclaredBy id) (·.name)
    (element.childrenNamed "request")
  events : interface.events.Lists (Event.DeclaredBy id) (·.name) (element.childrenNamed "event")
  enums : interface.enums.Lists (fun _ => Enumeration.DeclaredBy) (·.name)
    (element.childrenNamed "enum")

structure Protocol.DeclaredBy (id : Nat) (root : Element) (protocol : Protocol) : Prop where
  kinds : ∀ child ∈ root.children, child.name = "copyright" ∨ child.name = "description"
    ∨ child.name = "interface"
  id_eq : protocol.id = id
  name_eq : root.attr? "name" = some protocol.name
  family_eq : ∀ interface ∈ protocol.interfaces.values, interface.family = protocol.family
  copyright_eq : protocol.copyright = (root.childrenNamed "copyright").getLast?.map (·.text)
  description_eq : protocol.description = lastDescription? root
  interfaces : protocol.interfaces.Lists (fun index => Interface.DeclaredBy ⟨id, index⟩) (·.fullName)
    (root.childrenNamed "interface")

section Attributes

theorem isUnsigned_of_readUInt32 {text : String} {n : UInt32} (h : readUInt32 text = .ok n) :
    IsUnsigned maxUInt32 text n.toNat := by
  unfold readUInt32 at h
  rw [Except.map_eq_ok_iff] at h
  obtain ⟨value, hvalue, rfl⟩ := h
  rw [Numeral.unsigned_eq_ok_iff] at hvalue
  have hlt : value < UInt32.size := Nat.lt_succ_of_le hvalue.1
  rw [UInt32.toNat_ofNat_of_lt' hlt]
  exact hvalue

theorem isSince_of_readSince {element : Element} {since : UInt32}
    (h : readSince element = .ok since) : IsSince element since := by
  unfold readSince at h
  split at h
  · next text htext => exact .inr ⟨text, htext, isUnsigned_of_readUInt32 h⟩
  · next hnone =>
    cases h
    exact .inl ⟨hnone, rfl⟩

theorem isDeprecatedSince_of_readDeprecatedSince {element : Element} {since : Option UInt32}
    (h : readDeprecatedSince element = .ok since) : IsDeprecatedSince element since := by
  unfold readDeprecatedSince at h
  unfold IsDeprecatedSince
  split at h
  · next text htext =>
    rw [Except.map_eq_ok_iff] at h
    obtain ⟨n, hn, rfl⟩ := h
    rw [htext]
    exact .some (isUnsigned_of_readUInt32 hn)
  · next hnone =>
    cases h
    rw [hnone]
    exact .none

end Attributes

section Texts

theorem last_of_foldlM {ε β γ : Type} {step : β → Element → Except ε β} {init final : β}
    {children : List Element} (kind : String) (field : β → Option γ) (make : Element → γ)
    (hinit : field init = none)
    (hstep : ∀ draft child draft', step draft child = .ok draft' →
      field draft' = if child.name = kind then some (make child) else field draft)
    (h : children.foldlM step init = .ok final) :
    field final = (named kind children).getLast?.map make := by
  refine Except.foldlM_invariant
    (P := fun children draft => field draft = (named kind children).getLast?.map make) ?_ ?_ h
  · exact hinit
  · intro pre child draft draft' ih hadd
    rw [hstep draft child draft' hadd, ih, named_append]
    split
    · simp
    · simp

theorem summary_of_readSummary {element : Element} {summary : Option String}
    (h : Arg.readSummary element = .ok summary) :
    summary = ((lastDescription? element).bind (·.summary)).or (element.attr? "summary") := by
  unfold Arg.readSummary at h
  unfold lastDescription?
  refine Except.foldlM_invariant (P := fun descriptions summary => summary =
    ((descriptions.getLast?.map Description.ofElement).bind (·.summary)).or
      (element.attr? "summary")) ?_ ?_ h
  · rfl
  · intro pre child before after _ hstep
    rw [List.getLast?_concat]
    split at hstep
    · next text htext =>
      cases hstep
      simp [htext]
    · cases hstep

theorem readTexts_eq (element : Element) :
    Entry.readTexts element =
      (((element.childrenNamed "description").reverse.findSome? (·.attr? "summary")).or
        (element.attr? "summary"), lastDescription? element) := by
  unfold Entry.readTexts lastDescription?
  induction element.childrenNamed "description" using List.reverseRecOn with
  | nil => rfl
  | append_singleton descriptions child ih =>
    rw [List.foldl_append, ih, List.getLast?_concat, List.reverse_concat, List.findSome?_cons]
    cases hsummary : child.attr? "summary" with
    | none => simp [Description.ofElement, hsummary]
    | some summary => simp [Description.ofElement, hsummary]

end Texts

section Messages

theorem Arg.declaredBy_of_ofElement {parent : MessageId} {element : Element} {arg : Arg}
    (h : Arg.ofElement element parent = .ok arg) : arg.DeclaredBy parent element := by
  obtain ⟨name, typeName, type, allowNull, summary, hname, htype, hofName, hallowNull, hnullable,
    hsummary, rfl⟩ := (Arg.ofElement_eq_ok_iff element parent arg).mp h
  rw [Grammar.ofName?_eq_some_iff] at hofName
  exact {
    parent_eq := rfl
    name_eq := hname
    type_eq := by rw [htype, hofName]
    interface_eq := rfl
    enum_eq := rfl
    allowNull_iff := by
      rw [← Grammar.boolAttr?_eq_some_true_iff, hallowNull, Option.some.injEq]
    notNullable := by
      intro hnew
      rw [Bool.eq_false_iff]
      intro hnull
      exact hnullable ⟨hnull, hnew⟩
    summary_eq := summary_of_readSummary hsummary }

theorem Message.Draft.description_of_addChild (id : MessageId) (draft : Message.Draft)
    (child : Element) (draft' : Message.Draft) (h : draft.addChild id child = .ok draft') :
    draft'.description = if child.name = "description" then some (Description.ofElement child)
      else draft.description := by
  rcases (addChild_eq_ok_iff id draft draft' child).mp h with ⟨hname, rfl⟩ | ⟨hname, _, -, rfl⟩
  · simp [hname]
  · simp [hname]

theorem Message.declaredBy_of_ofElement {id : MessageId} {element : Element} {name : String}
    {message : Message} (hname : element.attr? "name" = some name)
    (h : Message.ofElement element name id = .ok message) : message.DeclaredBy id element := by
  obtain ⟨since, deprecatedSince, draft, hsince, hdeprecated, hdraft, rfl⟩ :=
    (Message.ofElement_eq_ok_iff element name id message).mp h
  have hreads := Draft.reads_of_foldlM hdraft
  exact {
    kinds := hreads.kinds
    name_eq := hname
    since := isSince_of_readSince hsince
    deprecatedSince := isDeprecatedSince_of_readDeprecatedSince hdeprecated
    description_eq := last_of_foldlM "description" (·.description) Description.ofElement rfl
      (Draft.description_of_addChild id) hdraft
    args := hreads.args.imp fun _ _ => Arg.declaredBy_of_ofElement }

theorem Message.DeclaredBy.createsObject_iff {id : MessageId} {element : Element}
    {message : Message} (h : message.DeclaredBy id element) :
    CreatesObject element ↔ message.args.any (·.type == .newId) = true := by
  have hname : ∀ type : WireType, type.name = "new_id" ↔ type = .newId := by
    intro type
    cases type <;> decide
  unfold CreatesObject
  simp only [List.any_eq_true, beq_iff_eq]
  constructor
  · rintro ⟨child, hchild, htype⟩
    obtain ⟨arg, harg, hdeclared⟩ := exists_of_mem_left h.args child hchild
    rw [hdeclared.type_eq, Option.some.injEq, hname] at htype
    exact ⟨arg, harg, htype⟩
  · rintro ⟨arg, harg, htype⟩
    obtain ⟨child, hchild, hdeclared⟩ := exists_of_mem_right h.args arg harg
    refine ⟨child, hchild, ?_⟩
    rw [hdeclared.type_eq, htype]
    rfl

def RequestKind.keyword? : RequestKind → Option String
  | .normal => none
  | .destructor => some "destructor"
  | .constructor => some "constructor"

theorem RequestKind.attr?_of_ofElement {element : Element} {kind : RequestKind}
    (h : RequestKind.ofElement element = .ok kind) : element.attr? "type" = kind.keyword? := by
  unfold RequestKind.ofElement at h
  split at h
  · next htype =>
    cases h
    exact htype
  · next htype =>
    cases h
    exact htype
  · next htype =>
    cases h
    exact htype
  · cases h

theorem Request.declaredBy_of_ofElement {id : InterfaceId} {index : Nat} {element : Element}
    {request : Request} (hindex : index < UInt16.size)
    (h : Interface.Draft.readRequest id index element = .ok request) :
    request.DeclaredBy id index element := by
  obtain ⟨name, declared, message, hname, hdeclared, hmessage, rfl⟩ :=
    (Request.ofElement_eq_ok_iff element _ _ request).mp h
  have hmessage := Message.declaredBy_of_ofElement hname hmessage
  have hopcode : (UInt16.ofNat index).toNat = index := UInt16.toNat_ofNat_of_lt' hindex
  -- whether there is a new object decides, and what is declared only if there is none
  by_cases hcreates : CreatesObject element
  · have hany := hmessage.createsObject_iff.mp hcreates
    refine ⟨hmessage, hopcode, ?_, ?_, ?_⟩
    · simp [hany, hcreates]
    · simp [hany, hcreates]
    · simp [hany, hcreates]
  · have hany := hcreates
    rw [hmessage.createsObject_iff] at hany
    have htype := RequestKind.attr?_of_ofElement hdeclared
    refine ⟨hmessage, hopcode, ?_, ?_, ?_⟩
    · cases declared <;> simp [hany, hcreates, htype, RequestKind.keyword?]
    · cases declared <;> simp [hany, hcreates, htype, RequestKind.keyword?]
    · cases declared <;> simp [hany, hcreates, htype, RequestKind.keyword?]

theorem Event.declaredBy_of_ofElement {id : InterfaceId} {index : Nat} {element : Element}
    {event : Event} (hindex : index + 1 < UInt16.size)
    (h : Interface.Draft.readEvent id index element = .ok event) :
    event.DeclaredBy id index element := by
  obtain ⟨name, message, hname, hmessage, rfl⟩ := (Event.ofElement_eq_ok_iff element _ _ event).mp h
  exact {
    message := Message.declaredBy_of_ofElement hname hmessage
    number_eq := UInt16.toNat_ofNat_of_lt' hindex }

end Messages

section Enumerations

theorem Entry.declaredBy_of_ofElement {element : Element} {entry : Entry}
    (h : Entry.ofElement element = .ok entry) : entry.DeclaredBy element := by
  obtain ⟨name, text, value, since, deprecatedSince, hname, htext, hvalue, hsince, hdeprecated,
    rfl⟩ := (Entry.ofElement_eq_ok_iff element entry).mp h
  exact {
    name_eq := hname
    value := ⟨text, htext, (Numeral.literal?_eq_some_iff text value).mp hvalue⟩
    since := isSince_of_readSince hsince
    deprecatedSince := isDeprecatedSince_of_readDeprecatedSince hdeprecated
    summary_eq := by rw [readTexts_eq]
    description_eq := by rw [readTexts_eq] }

theorem Enumeration.Draft.description_of_addChild (draft : Enumeration.Draft) (child : Element)
    (draft' : Enumeration.Draft) (h : draft.addChild child = .ok draft') :
    draft'.description = if child.name = "description" then some (Description.ofElement child)
      else draft.description := by
  rcases (addChild_eq_ok_iff draft draft' child).mp h with ⟨hname, rfl⟩ | ⟨hname, _, -, -, rfl⟩
  · simp [hname]
  · simp [hname]

theorem Enumeration.declaredBy_of_ofElement {element : Element} {enum : Enumeration}
    (h : Enumeration.ofElement element = .ok enum) : enum.DeclaredBy element := by
  obtain ⟨name, since, bitfield, draft, hname, hsince, hbitfield, hdraft, rfl, -⟩ :=
    (Enumeration.ofElement_eq_ok_iff element enum).mp h
  have hreads := Draft.reads_of_foldlM hdraft
  exact {
    kinds := hreads.kinds
    name_eq := hname
    since := isSince_of_readSince hsince
    bitfield_iff := by
      rw [← Grammar.boolAttr?_eq_some_true_iff, hbitfield, Option.some.injEq]
    description_eq := last_of_foldlM "description" (·.description) Description.ofElement rfl
      Draft.description_of_addChild hdraft
    entries := hreads.entries.lists fun _ _ _ _ => Entry.declaredBy_of_ofElement }

end Enumerations

section Interfaces

theorem Interface.Draft.description_of_addChild (id : InterfaceId) (draft : Interface.Draft)
    (child : Element) (draft' : Interface.Draft) (h : draft.addChild id child = .ok draft') :
    draft'.description = if child.name = "description" then some (Description.ofElement child)
      else draft.description := by
  rcases (addChild_eq_ok_iff id draft draft' child).mp h with ⟨hname, rfl⟩ | ⟨hname, hadd⟩ |
    ⟨hname, hadd⟩ | ⟨hname, hadd⟩
  · simp [hname]
  · obtain ⟨-, _, -, -, rfl⟩ := (addRequest_eq_ok_iff id draft draft' child).mp hadd
    simp [hname]
  · obtain ⟨-, _, -, -, rfl⟩ := (addEvent_eq_ok_iff id draft draft' child).mp hadd
    simp [hname]
  · obtain ⟨_, -, -, rfl⟩ := (addEnum_eq_ok_iff draft draft' child).mp hadd
    simp [hname]

theorem Interface.version_of_readVersion {element : Element} {version : UInt32}
    (h : Interface.readVersion element = .ok version) :
    (∃ text, element.attr? "version" = some text ∧ IsSigned maxInt64 text version.toNat)
      ∧ 0 < version.toNat := by
  obtain ⟨text, value, htext, hvalue, hpos, hmax, rfl⟩ :=
    (readVersion_eq_ok_iff element version).mp h
  have hlt : value.toNat < UInt32.size := by
    unfold UInt32.size
    unfold maxUInt32 at hmax
    omega
  have hvalue' : ((UInt32.ofNat value.toNat).toNat : Int) = value := by
    rw [UInt32.toNat_ofNat_of_lt' hlt]
    omega
  rw [Numeral.signed_eq_ok_iff] at hvalue
  refine ⟨⟨text, htext, ?_⟩, ?_⟩
  · rw [hvalue']
    exact hvalue
  · omega

theorem Interface.declaredBy_of_ofElement {id : InterfaceId} {element : Element}
    {interface : Interface} (h : Interface.ofElement element id = .ok interface) :
    interface.DeclaredBy id element := by
  obtain ⟨family, name, version, draft, hname, hversion, hdraft, rfl⟩ :=
    (Interface.ofElement_eq_ok_iff element id interface).mp h
  have hreads := Draft.reads_of_foldlM hdraft
  have hdeclared := ((readName_eq_ok_iff element family name).mp hname).1
  have hpositive := version_of_readVersion hversion
  exact {
    kinds := hreads.kinds
    id_eq := rfl
    name_eq := hdeclared
    version := hpositive.1
    version_pos := hpositive.2
    description_eq := last_of_foldlM "description" (·.description) Description.ofElement rfl
      (Draft.description_of_addChild id) hdraft
    requests := by
      apply hreads.requests.lists
      intro index child request hchild
      have hindex := (List.getElem?_eq_some_iff.mp hchild).1
      have hlimit := hreads.requests_le
      exact Request.declaredBy_of_ofElement (by omega)
    events := by
      apply hreads.events.lists
      intro index child event hchild
      have hindex := (List.getElem?_eq_some_iff.mp hchild).1
      have hlimit := hreads.events_lt
      exact Event.declaredBy_of_ofElement (by omega)
    enums := hreads.enums.lists fun _ _ _ _ => Enumeration.declaredBy_of_ofElement }

end Interfaces

section Protocols

theorem Protocol.Draft.description_of_addChild (id : Nat) (draft : Protocol.Draft)
    (child : Element) (draft' : Protocol.Draft) (h : draft.addChild id child = .ok draft') :
    draft'.description = if child.name = "description" then some (Description.ofElement child)
      else draft.description := by
  rcases (addChild_eq_ok_iff id draft draft' child).mp h with ⟨hname, rfl⟩ | ⟨hname, rfl⟩ |
    ⟨hname, _, -, -, rfl⟩
  · simp [hname]
  · simp [hname]
  · simp [hname]

theorem Protocol.Draft.copyright_of_addChild (id : Nat) (draft : Protocol.Draft)
    (child : Element) (draft' : Protocol.Draft) (h : draft.addChild id child = .ok draft') :
    draft'.copyright = if child.name = "copyright" then some child.text else draft.copyright := by
  rcases (addChild_eq_ok_iff id draft draft' child).mp h with ⟨hname, rfl⟩ | ⟨hname, rfl⟩ |
    ⟨hname, _, -, -, rfl⟩
  · simp [hname]
  · simp [hname]
  · simp [hname]

theorem Protocol.ofElement_keeps_document {root : Element} {id : Nat} {protocol : Protocol}
    (h : Protocol.ofElement root id = .ok protocol) : protocol.DeclaredBy id root := by
  obtain ⟨-, name, draft, family, hname, hdraft, hfamily, rfl⟩ :=
    (Protocol.ofElement_eq_ok_iff root id protocol).mp h
  have hreads := Draft.reads_of_foldlM hdraft
  exact {
    kinds := hreads.kinds
    id_eq := rfl
    name_eq := hname
    family_eq := ((commonFamily_eq_ok_iff _ family).mp hfamily).2
    copyright_eq := last_of_foldlM "copyright" (·.copyright) (·.text) rfl
      (Draft.copyright_of_addChild id) hdraft
    description_eq := last_of_foldlM "description" (·.description) Description.ofElement rfl
      (Draft.description_of_addChild id) hdraft
    interfaces := hreads.interfaces.lists fun _ _ _ _ => Interface.declaredBy_of_ofElement }

def mixedDocument : Element :=
  ⟨"protocol", [("name", "shelf")], [
    ⟨"interface", [("name", "ext_shelf"), ("version", "3")], [
      ⟨"request", [("name", "swap"), ("type", "destructor")], [
        ⟨"arg", [("name", "id"), ("type", "new_id")], [], ""⟩], ""⟩,
      ⟨"event", [("name", "full")], [], ""⟩,
      ⟨"enum", [("name", "side")], [
        ⟨"entry", [("name", "left"), ("value", "0x10")], [], ""⟩], ""⟩,
      ⟨"request", [("name", "put")], [
        ⟨"description", [("summary", "put it")], [], ""⟩,
        ⟨"arg", [("name", "at"), ("type", "uint"), ("enum", "side")], [], ""⟩], ""⟩,
      ⟨"event", [("name", "fell")], [], ""⟩,
      ⟨"request", [("name", "close"), ("type", "destructor")], [], ""⟩], ""⟩,
    ⟨"copyright", [], [], "2024"⟩], ""⟩

theorem Protocol.declaredBy_mixed :
    ∃ protocol, Protocol.ofElement mixedDocument 0 = .ok protocol
      ∧ protocol.DeclaredBy 0 mixedDocument
      ∧ (protocol.interfaces.values.flatMap fun interface =>
        interface.requests.values.map fun request => (request.name, request.kind)) =
          [("swap", .constructor), ("put", .normal), ("close", .destructor)] := by
  have hkinds : (Protocol.ofElement mixedDocument 0).toOption.map (fun protocol =>
      protocol.interfaces.values.flatMap fun interface =>
        interface.requests.values.map fun request => (request.name, request.kind)) =
          some [("swap", .constructor), ("put", .normal), ("close", .destructor)] := by
    decide +kernel
  obtain ⟨protocol, hread, hkinds⟩ := Option.map_eq_some_iff.mp hkinds
  rw [Except.toOption_eq_some_iff] at hread
  exact ⟨protocol, hread, ofElement_keeps_document hread, hkinds⟩

end Protocols

end Waybind
