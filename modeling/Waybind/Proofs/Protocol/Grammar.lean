import Waybind.Proofs.Numeral
import Waybind.Proofs.Protocol.Reading

/-!
This module contains the grammar of protocol documents, as conditions on element trees, and shows
that exactly the trees that satisfy it are read.
-/

namespace Waybind
namespace Grammar

open Xml (Element)

def Has (element : Element) (name : String) : Prop :=
  ∃ text, element.attr? name = some text

def Optional (element : Element) (name : String) (form : String → Prop) : Prop :=
  ∀ text, element.attr? name = some text → form text

def IsBool (text : String) : Prop :=
  text = "true" ∨ text = "false"

def IsUInt32 (text : String) : Prop :=
  ∃ n, Numeral.IsUnsigned Numeral.maxUInt32 text n

def DistinctNames (elements : List Element) : Prop :=
  (elements.map (·.attr? "name")).Nodup

structure IsArg (element : Element) : Prop where
  name : Has element "name"
  type : ∃ type : WireType, element.attr? "type" = some type.name
  allowNull : Optional element "allow-null" IsBool
  notNullable : element.attr? "type" = some "new_id" → element.attr? "allow-null" ≠ some "true"
  summaries : ∀ child ∈ element.childrenNamed "description", Has child "summary"

structure IsMessage (element : Element) : Prop where
  name : Has element "name"
  since : Optional element "since" IsUInt32
  deprecatedSince : Optional element "deprecated-since" IsUInt32
  children : ∀ child ∈ element.children,
    child.name = "description" ∨ child.name = "arg" ∧ IsArg child

structure IsRequest (element : Element) : Prop extends IsMessage element where
  type : Optional element "type" fun text => text = "destructor" ∨ text = "constructor"

structure IsEntry (element : Element) : Prop where
  name : Has element "name"
  value : ∃ text value, element.attr? "value" = some text ∧ Numeral.IsLiteral text value
  since : Optional element "since" IsUInt32
  deprecatedSince : Optional element "deprecated-since" IsUInt32

def HasValue (element : Element) (value : Int) : Prop :=
  ∃ child ∈ element.childrenNamed "entry",
    ∃ text, child.attr? "value" = some text ∧ Numeral.IsLiteral text value

structure IsEnumeration (element : Element) : Prop where
  name : Has element "name"
  since : Optional element "since" IsUInt32
  bitfield : Optional element "bitfield" IsBool
  children : ∀ child ∈ element.children,
    child.name = "description" ∨ child.name = "entry" ∧ IsEntry child
  entryNames : DistinctNames (element.childrenNamed "entry")
  /-- Flags have one of 32 bits. -/
  bits : element.attr? "bitfield" = some "true" → ∀ bit : Nat, HasValue element (2 ^ bit) → bit < 32
  /-- Other values are all signed or all unsigned numbers of 32 bits. -/
  range : element.attr? "bitfield" ≠ some "true" →
    (∀ value, HasValue element value → -2 ^ 31 ≤ value ∧ value < 2 ^ 31)
      ∨ ∀ value, HasValue element value → 0 ≤ value ∧ value < 2 ^ 32

def IsOfFamily (element : Element) (family : String) : Prop :=
  ∃ name, element.attr? "name" = some (family ++ "_" ++ name) ∧ '_' ∉ family.toList ∧ family ≠ ""
    ∧ name ≠ ""

/--
What is in an interface. A request has a number from 0 on and an event one from 1 on, each of 16
bits, so that there may be one request more.
-/
structure InInterface (children : List Element) : Prop where
  kinds : ∀ child ∈ children,
    child.name = "description" ∨ child.name = "request" ∧ IsRequest child
      ∨ child.name = "event" ∧ IsMessage child ∨ child.name = "enum" ∧ IsEnumeration child
  requests_le : (named "request" children).length ≤ 65536
  events_le : (named "event" children).length ≤ 65535
  requestNames : DistinctNames (named "request" children)
  eventNames : DistinctNames (named "event" children)
  enumNames : DistinctNames (named "enum" children)

structure IsInterface (element : Element) : Prop where
  name : ∃ family, IsOfFamily element family
  version : ∃ text value, element.attr? "version" = some text
    ∧ Numeral.IsSigned Numeral.maxInt64 text value ∧ 1 ≤ value ∧ value ≤ 2 ^ 32 - 1
  children : InInterface element.children

structure IsProtocol (root : Element) : Prop where
  tag : root.name = "protocol"
  name : Has root "name"
  children : ∀ child ∈ root.children,
    child.name = "copyright" ∨ child.name = "description"
      ∨ child.name = "interface" ∧ IsInterface child
  interfaces : root.childrenNamed "interface" ≠ []
  interfaceNames : DistinctNames (root.childrenNamed "interface")
  family : ∃ family, ∀ child ∈ root.childrenNamed "interface", IsOfFamily child family

section Attributes

variable (element : Element)

theorem boolAttr?_iff (name : String) :
    (∃ value, boolAttr? element name = some value) ↔ Optional element name IsBool := by
  unfold boolAttr? Optional IsBool
  split <;> grind

theorem boolAttr?_eq_some_true_iff (name : String) :
    boolAttr? element name = some true ↔ element.attr? name = some "true" := by
  unfold boolAttr?
  split <;> grind

theorem readUInt32_iff (text : String) : (∃ n, readUInt32 text = .ok n) ↔ IsUInt32 text := by
  unfold readUInt32 IsUInt32
  simp [Numeral.unsigned_eq_ok_iff]

theorem readSince_iff :
    (∃ since, readSince element = .ok since) ↔ Optional element "since" IsUInt32 := by
  unfold readSince Optional
  split
  · next text h => simp [readUInt32_iff, h]
  · next h => simp [h]

theorem readDeprecatedSince_iff :
    (∃ since, readDeprecatedSince element = .ok since) ↔
      Optional element "deprecated-since" IsUInt32 := by
  unfold readDeprecatedSince Optional
  split
  · next text h => simp [readUInt32_iff, h]
  · next h => simp [h]

end Attributes

section Messages

theorem readSummary_iff (element : Element) :
    (∃ summary, Arg.readSummary element = .ok summary) ↔
      ∀ child ∈ element.childrenNamed "description", Has child "summary" := by
  unfold Arg.readSummary Has
  generalize element.attr? "summary" = summary
  induction element.childrenNamed "description" generalizing summary with
  | nil => simp
  | cons child children ih =>
    simp only [List.foldlM_cons, List.forall_mem_cons, Description.ofElement] at ih ⊢
    cases child.attr? "summary" with
    | none => simp
    | some text => simpa using ih (some text)

theorem ofName?_eq_some_iff (name : String) (type : WireType) :
    WireType.ofName? name = some type ↔ name = type.name := by
  constructor
  · intro h
    unfold WireType.ofName? at h
    have hname := List.find?_some h
    exact (beq_iff_eq.mp hname).symm
  · rintro rfl
    exact WireType.ofName?_name type

theorem arg_iff (element : Element) (parent : MessageId) :
    (∃ arg, Arg.ofElement element parent = .ok arg) ↔ IsArg element := by
  simp only [Arg.ofElement_eq_ok_iff, ofName?_eq_some_iff]
  constructor
  · rintro ⟨_, name, _, type, allowNull, summary, hname, htype, rfl, hallow, hnew, hsummary, -⟩
    refine ⟨⟨name, hname⟩, ⟨type, htype⟩, ?_, ?_, ?_⟩
    · exact (boolAttr?_iff element "allow-null").mp ⟨allowNull, hallow⟩
    · intro hid htrue
      rw [← boolAttr?_eq_some_true_iff, hallow, Option.some.injEq] at htrue
      rw [htype, Option.some.injEq] at hid
      apply hnew ⟨htrue, ?_⟩
      -- no other type has this name
      revert hid
      cases type <;> decide
    · exact (readSummary_iff element).mp ⟨summary, hsummary⟩
  · intro h
    obtain ⟨name, hname⟩ := h.name
    obtain ⟨type, htype⟩ := h.type
    obtain ⟨allowNull, hallow⟩ := (boolAttr?_iff element "allow-null").mpr h.allowNull
    obtain ⟨summary, hsummary⟩ := (readSummary_iff element).mpr h.summaries
    refine ⟨_, name, _, type, allowNull, summary, hname, htype, rfl, hallow, ?_, hsummary, rfl⟩
    rintro ⟨rfl, rfl⟩
    exact h.notNullable htype ((boolAttr?_eq_some_true_iff element _).mp hallow)

theorem message_children_iff (children : List Element) (id : MessageId) :
    (∃ draft, children.foldlM (Message.Draft.addChild id) ⟨none, #[]⟩ = .ok draft) ↔
      ∀ child ∈ children, child.name = "description" ∨ child.name = "arg" ∧ IsArg child := by
  constructor
  · rintro ⟨draft, hdraft⟩ child hchild
    have hreads := Message.Draft.reads_of_foldlM hdraft
    refine (hreads.kinds child hchild).imp_right fun hname => ⟨hname, ?_⟩
    have hmem : child ∈ named "arg" children := by simp [named, hchild, hname]
    obtain ⟨arg, -, harg⟩ := exists_of_mem_left hreads.args child hmem
    exact (arg_iff child id).mp ⟨arg, harg⟩
  · intro h
    apply Except.foldlM_eq_ok_of_step
    rintro pre child post draft rfl -
    simp only [Message.Draft.addChild_eq_ok_iff]
    rcases h child (by simp) with hname | ⟨hname, harg⟩
    · exact ⟨_, .inl ⟨hname, rfl⟩⟩
    · obtain ⟨arg, harg⟩ := (arg_iff child id).mpr harg
      exact ⟨_, .inr ⟨hname, arg, harg, rfl⟩⟩

theorem message_iff (element : Element) (name : String) (hname : element.attr? "name" = some name)
    (id : MessageId) : (∃ message, Message.ofElement element name id = .ok message) ↔
      IsMessage element := by
  simp only [Message.ofElement_eq_ok_iff]
  constructor
  · rintro ⟨_, since, deprecatedSince, draft, hsince, hdeprecated, hdraft, -⟩
    refine ⟨⟨name, hname⟩, ?_, ?_, ?_⟩
    · exact (readSince_iff element).mp ⟨since, hsince⟩
    · exact (readDeprecatedSince_iff element).mp ⟨deprecatedSince, hdeprecated⟩
    · exact (message_children_iff element.children id).mp ⟨draft, hdraft⟩
  · intro h
    obtain ⟨since, hsince⟩ := (readSince_iff element).mpr h.since
    obtain ⟨deprecatedSince, hdeprecated⟩ :=
      (readDeprecatedSince_iff element).mpr h.deprecatedSince
    obtain ⟨draft, hdraft⟩ := (message_children_iff element.children id).mpr h.children
    exact ⟨_, since, deprecatedSince, draft, hsince, hdeprecated, hdraft, rfl⟩

theorem event_iff (element : Element) (number : UInt16) (id : MessageId) :
    (∃ event, Event.ofElement element number id = .ok event) ↔ IsMessage element := by
  simp only [Event.ofElement_eq_ok_iff]
  constructor
  · rintro ⟨_, name, message, hname, hmessage, -⟩
    exact (message_iff element name hname id).mp ⟨message, hmessage⟩
  · intro h
    obtain ⟨name, hname⟩ := h.name
    obtain ⟨message, hmessage⟩ := (message_iff element name hname id).mpr h
    exact ⟨_, name, message, hname, hmessage, rfl⟩

theorem requestKind_iff (element : Element) :
    (∃ kind, RequestKind.ofElement element = .ok kind) ↔
      Optional element "type" fun text => text = "destructor" ∨ text = "constructor" := by
  unfold RequestKind.ofElement Optional
  split <;> grind

theorem request_iff (element : Element) (opcode : UInt16) (id : MessageId) :
    (∃ request, Request.ofElement element opcode id = .ok request) ↔ IsRequest element := by
  simp only [Request.ofElement_eq_ok_iff]
  constructor
  · rintro ⟨_, name, kind, message, hname, hkind, hmessage, -⟩
    refine ⟨(message_iff element name hname id).mp ⟨message, hmessage⟩, ?_⟩
    exact (requestKind_iff element).mp ⟨kind, hkind⟩
  · intro h
    obtain ⟨name, hname⟩ := h.name
    obtain ⟨kind, hkind⟩ := (requestKind_iff element).mpr h.type
    obtain ⟨message, hmessage⟩ := (message_iff element name hname id).mpr h.toIsMessage
    exact ⟨_, name, kind, message, hname, hkind, hmessage, rfl⟩

end Messages

section Tables

variable {ε α : Type} {read : Nat → Element → Except ε α} {name : α → String}
  {parts : List Element}

theorem distinctNames_of_holds {table : Table α} (h : table.Holds read name parts)
    (hname : ∀ index part value, read index part = .ok value →
      part.attr? "name" = some (name value)) :
    DistinctNames parts := by
  unfold DistinctNames
  rw [← h.names_eq hname]
  exact h.nodup.map (Option.some_injective _)

theorem contains_eq_false {draft : Table.Draft α} (h : draft.toTable.Holds read name parts)
    (hname : ∀ index part value, read index part = .ok value →
      part.attr? "name" = some (name value))
    {part : Element} {rest : List Element} (hdistinct : DistinctNames (parts ++ part :: rest))
    (index : Nat) {value : α} (hvalue : read index part = .ok value) :
    draft.contains (name value) = false := by
  rw [Bool.eq_false_iff, ne_eq, Table.Draft.contains_iff]
  intro hmem
  have htaken : some (name value) ∈ parts.map (·.attr? "name") := by
    rw [← h.names_eq hname]
    exact List.mem_map_of_mem hmem
  unfold DistinctNames at hdistinct
  rw [List.map_append, List.nodup_append] at hdistinct
  exact hdistinct.2.2 _ htaken _ (by simp) (hname index part value hvalue).symm

theorem named_append_cons {kind : String} {child : Element} (h : child.name = kind)
    (pre post : List Element) :
    named kind (pre ++ child :: post) = named kind pre ++ child :: named kind post := by
  simp [named, h]

theorem mem_named {kind : String} {child : Element} {children : List Element} :
    child ∈ named kind children ↔ child ∈ children ∧ child.name = kind := by
  simp [named]

theorem exists_read {kind : String} {child : Element} {children : List Element} {table : Table α}
    (h : table.Holds read name (named kind children)) (hmem : child ∈ children)
    (hkind : child.name = kind) : ∃ index value, read index child = .ok value := by
  obtain ⟨index, hindex⟩ := List.mem_iff_getElem?.mp (mem_named.mpr ⟨hmem, hkind⟩)
  obtain ⟨value, hvalue, -⟩ := h.entry index child hindex
  exact ⟨index, value, hvalue⟩

end Tables

section Enumerations

theorem entry_iff (element : Element) :
    (∃ entry, Entry.ofElement element = .ok entry) ↔ IsEntry element := by
  simp only [Entry.ofElement_eq_ok_iff, Numeral.literal?_eq_some_iff]
  constructor
  · rintro ⟨_, name, text, value, since, deprecatedSince, hname, htext, hvalue, hsince,
      hdeprecated, -⟩
    refine ⟨⟨name, hname⟩, ⟨text, value, htext, hvalue⟩, ?_, ?_⟩
    · exact (readSince_iff element).mp ⟨since, hsince⟩
    · exact (readDeprecatedSince_iff element).mp ⟨deprecatedSince, hdeprecated⟩
  · intro h
    obtain ⟨name, hname⟩ := h.name
    obtain ⟨text, value, htext, hvalue⟩ := h.value
    obtain ⟨since, hsince⟩ := (readSince_iff element).mpr h.since
    obtain ⟨deprecatedSince, hdeprecated⟩ :=
      (readDeprecatedSince_iff element).mpr h.deprecatedSince
    exact ⟨_, name, text, value, since, deprecatedSince, hname, htext, hvalue, hsince, hdeprecated,
      rfl⟩

theorem entry_name (child : Element) (entry : Entry)
    (h : Entry.ofElement child = .ok entry) : child.attr? "name" = some entry.name := by
  obtain ⟨name, _, _, _, _, hname, _, _, _, _, rfl⟩ := (Entry.ofElement_eq_ok_iff child entry).mp h
  exact hname

theorem enumeration_children_iff (children : List Element) :
    (∃ draft, children.foldlM Enumeration.Draft.addChild ⟨none, .empty⟩ = .ok draft) ↔
      (∀ child ∈ children, child.name = "description" ∨ child.name = "entry" ∧ IsEntry child)
        ∧ DistinctNames (named "entry" children) := by
  constructor
  · rintro ⟨draft, hdraft⟩
    have hreads := Enumeration.Draft.reads_of_foldlM hdraft
    refine ⟨?_, distinctNames_of_holds hreads.entries fun _ => entry_name⟩
    intro child hchild
    refine (hreads.kinds child hchild).imp_right fun hname => ⟨hname, ?_⟩
    obtain ⟨_, entry, hentry⟩ := exists_read hreads.entries hchild hname
    exact (entry_iff child).mp ⟨entry, hentry⟩
  · rintro ⟨hchildren, hnames⟩
    apply Except.foldlM_eq_ok_of_step
    rintro pre child post draft rfl hdraft
    have hreads := Enumeration.Draft.reads_of_foldlM hdraft
    simp only [Enumeration.Draft.addChild_eq_ok_iff]
    rcases hchildren child (by simp) with hname | ⟨hname, hentry⟩
    · exact ⟨_, .inl ⟨hname, rfl⟩⟩
    · obtain ⟨entry, hentry⟩ := (entry_iff child).mpr hentry
      rw [named_append_cons hname] at hnames
      have hnew := contains_eq_false hreads.entries (fun _ => entry_name) hnames 0 hentry
      exact ⟨_, .inr ⟨hname, entry, hentry, hnew, rfl⟩⟩

theorem mem_values_iff {element : Element} {draft : Enumeration.Draft}
    (h : Enumeration.Draft.Reads element.children draft) (value : Int) :
    (∃ entry ∈ draft.entries.toTable.values, entry.value = value) ↔ HasValue element value := by
  unfold HasValue
  rw [childrenNamed_eq]
  constructor
  · rintro ⟨entry, hentry, rfl⟩
    obtain ⟨index, hindex⟩ := (Table.mem_values_iff _ entry).mp hentry
    obtain ⟨-, child, hchild, hread⟩ := h.entries.of_at? hindex
    obtain ⟨_, text, value, _, _, _, htext, hvalue, _, _, rfl⟩ :=
      (Entry.ofElement_eq_ok_iff child entry).mp hread
    rw [Numeral.literal?_eq_some_iff] at hvalue
    exact ⟨child, List.mem_of_getElem? hchild, text, htext, hvalue⟩
  · rintro ⟨child, hchild, text, htext, hvalue⟩
    obtain ⟨index, hindex⟩ := List.mem_iff_getElem?.mp hchild
    obtain ⟨entry, hread, hentry⟩ := h.entries.at?_of_part hindex
    refine ⟨entry, (Table.mem_values_iff _ entry).mpr ⟨index, hentry⟩, ?_⟩
    obtain ⟨_, text', value', _, _, _, htext', hvalue', _, _, rfl⟩ :=
      (Entry.ofElement_eq_ok_iff child entry).mp hread
    rw [htext, Option.some.injEq] at htext'
    subst htext'
    rw [← Numeral.literal?_eq_some_iff, hvalue', Option.some.injEq] at hvalue
    exact hvalue

theorem checkRange_iff (enum : Enumeration) :
    enum.checkRange = .ok () ↔
      (enum.bitfield = true →
        ∀ bit : Nat, (∃ entry ∈ enum.entries.values, entry.value = 2 ^ bit) → bit < 32)
      ∧ (enum.bitfield = false →
        (∀ entry ∈ enum.entries.values, -2 ^ 31 ≤ entry.value ∧ entry.value < 2 ^ 31)
          ∨ ∀ entry ∈ enum.entries.values, 0 ≤ entry.value ∧ entry.value < 2 ^ 32) := by
  unfold Enumeration.checkRange
  cases enum.bitfield with
  | true =>
    simp only [↓reduceIte, forall_const, reduceCtorEq, false_implies, and_true,
      ← Enumeration.mem_bits_flags]
    cases hfind : enum.flags.find? (32 ≤ ·.1) with
    | none =>
      rw [List.find?_eq_none] at hfind
      simp only [List.mem_map, true_iff]
      rintro bit ⟨flag, hflag, rfl⟩
      simpa using hfind flag hflag
    | some flag =>
      have hbit := List.find?_some hfind
      have hmem := List.mem_of_find?_eq_some hfind
      simp only [reduceCtorEq, false_iff]
      intro hall
      have hlt := hall flag.1 (List.mem_map_of_mem hmem)
      simp only [decide_eq_true_eq] at hbit
      omega
  | false =>
    simp only [Bool.false_eq_true, ↓reduceIte, Bool.or_eq_true, false_implies, true_and,
      forall_const, ← Enumeration.isSigned_iff, ← Enumeration.isUnsigned_iff]
    split
    · next h => simp [h]
    · next h => simp [h]

theorem checkRange_iff_of_reads {element : Element} {draft : Enumeration.Draft} {bitfield : Bool}
    (hreads : Enumeration.Draft.Reads element.children draft)
    (hbitfield : boolAttr? element "bitfield" = some bitfield) (name : String) (since : UInt32) :
    (⟨name, since, bitfield, draft.description, draft.entries.toTable⟩ : Enumeration).checkRange
        = .ok () ↔
      (element.attr? "bitfield" = some "true" →
        ∀ bit : Nat, HasValue element (2 ^ bit) → bit < 32)
      ∧ (element.attr? "bitfield" ≠ some "true" →
        (∀ value, HasValue element value → -2 ^ 31 ≤ value ∧ value < 2 ^ 31)
          ∨ ∀ value, HasValue element value → 0 ≤ value ∧ value < 2 ^ 32) := by
  rw [checkRange_iff, ne_eq, ← boolAttr?_eq_some_true_iff, hbitfield]
  simp only [← mem_values_iff hreads, forall_exists_index, and_imp, forall_apply_eq_imp_iff₂,
    Option.some.injEq, Bool.not_eq_true]

theorem enumeration_iff (element : Element) :
    (∃ enum, Enumeration.ofElement element = .ok enum) ↔ IsEnumeration element := by
  simp only [Enumeration.ofElement_eq_ok_iff]
  constructor
  · rintro ⟨_, name, since, bitfield, draft, hname, hsince, hbitfield, hdraft, rfl, hrange⟩
    obtain ⟨hchildren, hnames⟩ := (enumeration_children_iff element.children).mp ⟨draft, hdraft⟩
    rw [checkRange_iff_of_reads (Enumeration.Draft.reads_of_foldlM hdraft) hbitfield] at hrange
    exact ⟨⟨name, hname⟩, (readSince_iff element).mp ⟨since, hsince⟩,
      (boolAttr?_iff element "bitfield").mp ⟨bitfield, hbitfield⟩, hchildren, hnames, hrange.1,
      hrange.2⟩
  · intro h
    obtain ⟨name, hname⟩ := h.name
    obtain ⟨since, hsince⟩ := (readSince_iff element).mpr h.since
    obtain ⟨bitfield, hbitfield⟩ := (boolAttr?_iff element "bitfield").mpr h.bitfield
    obtain ⟨draft, hdraft⟩ :=
      (enumeration_children_iff element.children).mpr ⟨h.children, h.entryNames⟩
    refine ⟨_, name, since, bitfield, draft, hname, hsince, hbitfield, hdraft, rfl, ?_⟩
    rw [checkRange_iff_of_reads (Enumeration.Draft.reads_of_foldlM hdraft) hbitfield]
    exact ⟨h.bits, h.range⟩

end Enumerations

section Interfaces

theorem request_name (id : InterfaceId) (index : Nat) (child : Element) (request : Request)
    (h : Interface.Draft.readRequest id index child = .ok request) :
    child.attr? "name" = some request.name := by
  obtain ⟨name, _, message, hname, _, hmessage, rfl⟩ :=
    (Request.ofElement_eq_ok_iff child _ _ request).mp h
  rw [hname, Message.name_eq_of_ofElement hmessage]

theorem event_name (id : InterfaceId) (index : Nat) (child : Element) (event : Event)
    (h : Interface.Draft.readEvent id index child = .ok event) :
    child.attr? "name" = some event.name := by
  obtain ⟨name, message, hname, hmessage, rfl⟩ := (Event.ofElement_eq_ok_iff child _ _ event).mp h
  rw [hname, Message.name_eq_of_ofElement hmessage]

theorem enumeration_name (child : Element) (enum : Enumeration)
    (h : Enumeration.ofElement child = .ok enum) : child.attr? "name" = some enum.name := by
  obtain ⟨name, _, _, _, hname, _, _, _, rfl, _⟩ :=
    (Enumeration.ofElement_eq_ok_iff child enum).mp h
  exact hname

theorem inInterface_of_reads {id : InterfaceId} {children : List Element}
    {draft : Interface.Draft} (h : Interface.Draft.Reads id children draft) :
    InInterface children where
  kinds := by
    intro child hchild
    rcases h.kinds child hchild with hname | hname | hname | hname
    · exact .inl hname
    · obtain ⟨_, request, hrequest⟩ := exists_read h.requests hchild hname
      exact .inr (.inl ⟨hname, (request_iff child _ _).mp ⟨request, hrequest⟩⟩)
    · obtain ⟨_, event, hevent⟩ := exists_read h.events hchild hname
      exact .inr (.inr (.inl ⟨hname, (event_iff child _ _).mp ⟨event, hevent⟩⟩))
    · obtain ⟨_, enum, henum⟩ := exists_read h.enums hchild hname
      exact .inr (.inr (.inr ⟨hname, (enumeration_iff child).mp ⟨enum, henum⟩⟩))
  requests_le := h.requests_le
  events_le := Nat.le_of_lt_succ h.events_lt
  requestNames := distinctNames_of_holds h.requests (request_name id)
  eventNames := distinctNames_of_holds h.events (event_name id)
  enumNames := distinctNames_of_holds h.enums fun _ => enumeration_name

section Step

variable {id : InterfaceId} {draft : Interface.Draft} {pre post : List Element} {child : Element}
  (hreads : Interface.Draft.Reads id pre draft) (h : InInterface (pre ++ child :: post))

include hreads h

theorem exists_addRequest (hname : child.name = "request") (hchild : IsRequest child) :
    ∃ draft', draft.addRequest id child = .ok draft' := by
  obtain ⟨request, hrequest⟩ := (request_iff child (UInt16.ofNat draft.requests.size)
    ⟨id, .request, draft.requests.size⟩).mpr hchild
  have hnames := h.requestNames
  have hcount := h.requests_le
  rw [named_append_cons hname] at hnames hcount
  have hnew := contains_eq_false hreads.requests (request_name id) hnames _ hrequest
  have hsize : draft.requests.size < UInt16.size := by
    rw [Table.Draft.size_eq, hreads.requests.length_eq, UInt16.size]
    simp only [List.length_append, List.length_cons] at hcount
    omega
  simp only [Interface.Draft.addRequest_eq_ok_iff]
  exact ⟨_, hsize, request, hrequest, hnew, rfl⟩

theorem exists_addEvent (hname : child.name = "event") (hchild : IsMessage child) :
    ∃ draft', draft.addEvent id child = .ok draft' := by
  obtain ⟨event, hevent⟩ := (event_iff child (UInt16.ofNat (draft.events.size + 1))
    ⟨id, .event, draft.events.size⟩).mpr hchild
  have hnames := h.eventNames
  have hcount := h.events_le
  rw [named_append_cons hname] at hnames hcount
  have hnew := contains_eq_false hreads.events (event_name id) hnames _ hevent
  -- events are numbered from 1 on, so the last number is reached one event earlier
  have hsize : draft.events.size + 1 < UInt16.size := by
    rw [Table.Draft.size_eq, hreads.events.length_eq, UInt16.size]
    simp only [List.length_append, List.length_cons] at hcount
    omega
  simp only [Interface.Draft.addEvent_eq_ok_iff]
  exact ⟨_, hsize, event, hevent, hnew, rfl⟩

theorem exists_addEnum (hname : child.name = "enum") (hchild : IsEnumeration child) :
    ∃ draft', draft.addEnum child = .ok draft' := by
  obtain ⟨enum, henum⟩ := (enumeration_iff child).mpr hchild
  have hnames := h.enumNames
  rw [named_append_cons hname] at hnames
  have hnew := contains_eq_false hreads.enums (fun _ => enumeration_name) hnames 0 henum
  simp only [Interface.Draft.addEnum_eq_ok_iff]
  exact ⟨_, enum, henum, hnew, rfl⟩

end Step

theorem interface_children_iff (children : List Element) (id : InterfaceId) :
    (∃ draft, children.foldlM (Interface.Draft.addChild id) .empty = .ok draft) ↔
      InInterface children := by
  constructor
  · rintro ⟨draft, hdraft⟩
    exact inInterface_of_reads (Interface.Draft.reads_of_foldlM hdraft)
  · intro h
    apply Except.foldlM_eq_ok_of_step
    rintro pre child post draft rfl hdraft
    have hreads := Interface.Draft.reads_of_foldlM hdraft
    simp only [Interface.Draft.addChild_eq_ok_iff]
    rcases h.kinds child (by simp) with hname | ⟨hname, hchild⟩ | ⟨hname, hchild⟩ |
      ⟨hname, hchild⟩
    · exact ⟨_, .inl ⟨hname, rfl⟩⟩
    · obtain ⟨draft', hadd⟩ := exists_addRequest hreads h hname hchild
      exact ⟨draft', .inr (.inl ⟨hname, hadd⟩)⟩
    · obtain ⟨draft', hadd⟩ := exists_addEvent hreads h hname hchild
      exact ⟨draft', .inr (.inr (.inl ⟨hname, hadd⟩))⟩
    · obtain ⟨draft', hadd⟩ := exists_addEnum hreads h hname hchild
      exact ⟨draft', .inr (.inr (.inr ⟨hname, hadd⟩))⟩

theorem readVersion_iff (element : Element) :
    (∃ version, Interface.readVersion element = .ok version) ↔
      ∃ text value, element.attr? "version" = some text
        ∧ Numeral.IsSigned Numeral.maxInt64 text value ∧ 1 ≤ value ∧ value ≤ 2 ^ 32 - 1 := by
  simp only [Interface.readVersion_eq_ok_iff, Numeral.signed_eq_ok_iff]
  constructor
  · rintro ⟨_, text, value, htext, hvalue, hpos, hmax, -⟩
    exact ⟨text, value, htext, hvalue, hpos, hmax⟩
  · rintro ⟨text, value, htext, hvalue, hpos, hmax⟩
    exact ⟨_, text, value, htext, hvalue, hpos, hmax, rfl⟩

theorem interface_iff (element : Element) (id : InterfaceId) :
    (∃ interface, Interface.ofElement element id = .ok interface) ↔ IsInterface element := by
  simp only [Interface.ofElement_eq_ok_iff, Interface.readName_eq_ok_iff]
  constructor
  · rintro ⟨_, family, name, version, draft, hname, hversion, hdraft, -⟩
    refine ⟨⟨family, name, hname⟩, ?_, ?_⟩
    · exact (readVersion_iff element).mp ⟨version, hversion⟩
    · exact (interface_children_iff element.children id).mp ⟨draft, hdraft⟩
  · intro h
    obtain ⟨family, name, hname⟩ := h.name
    obtain ⟨version, hversion⟩ := (readVersion_iff element).mpr h.version
    obtain ⟨draft, hdraft⟩ := (interface_children_iff element.children id).mpr h.children
    exact ⟨_, family, name, version, draft, hname, hversion, hdraft, rfl⟩

end Interfaces

section Protocols

theorem interface_name (id index : Nat) (child : Element) (interface : Interface)
    (h : Protocol.Draft.readInterface id index child = .ok interface) :
    child.attr? "name" = some interface.fullName := by
  obtain ⟨family, name, _, _, hname, _, _, rfl⟩ :=
    (Interface.ofElement_eq_ok_iff child _ interface).mp h
  exact ((Interface.readName_eq_ok_iff child family name).mp hname).1

theorem interface_family (id index : Nat) (child : Element) (interface : Interface)
    (h : Protocol.Draft.readInterface id index child = .ok interface) :
    IsOfFamily child interface.family := by
  obtain ⟨family, name, _, _, hname, _, _, rfl⟩ :=
    (Interface.ofElement_eq_ok_iff child _ interface).mp h
  exact ⟨name, (Interface.readName_eq_ok_iff child family name).mp hname⟩

theorem isOfFamily_unique {element : Element} {family family' : String}
    (h : IsOfFamily element family) (h' : IsOfFamily element family') : family = family' := by
  obtain ⟨name, hname⟩ := h
  obtain ⟨name', hname'⟩ := h'
  rw [← Interface.readName_eq_ok_iff] at hname hname'
  rw [hname, Except.ok.injEq, Prod.mk.injEq] at hname'
  exact hname'.1

theorem protocol_children_iff (children : List Element) (id : Nat) :
    (∃ draft, children.foldlM (Protocol.Draft.addChild id) ⟨none, none, .empty⟩ = .ok draft) ↔
      (∀ child ∈ children, child.name = "copyright" ∨ child.name = "description"
        ∨ child.name = "interface" ∧ IsInterface child)
        ∧ DistinctNames (named "interface" children) := by
  constructor
  · rintro ⟨draft, hdraft⟩
    have hreads := Protocol.Draft.reads_of_foldlM hdraft
    refine ⟨?_, distinctNames_of_holds hreads.interfaces (interface_name id)⟩
    intro child hchild
    rcases hreads.kinds child hchild with hname | hname | hname
    · exact .inl hname
    · exact .inr (.inl hname)
    · obtain ⟨_, interface, hinterface⟩ := exists_read hreads.interfaces hchild hname
      exact .inr (.inr ⟨hname, (interface_iff child _).mp ⟨interface, hinterface⟩⟩)
  · rintro ⟨hchildren, hnames⟩
    apply Except.foldlM_eq_ok_of_step
    rintro pre child post draft rfl hdraft
    have hreads := Protocol.Draft.reads_of_foldlM hdraft
    simp only [Protocol.Draft.addChild_eq_ok_iff]
    rcases hchildren child (by simp) with hname | hname | ⟨hname, hchild⟩
    · exact ⟨_, .inl ⟨hname, rfl⟩⟩
    · exact ⟨_, .inr (.inl ⟨hname, rfl⟩)⟩
    · obtain ⟨interface, hinterface⟩ :=
        (interface_iff child ⟨id, draft.interfaces.size⟩).mpr hchild
      rw [named_append_cons hname] at hnames
      have hnew := contains_eq_false hreads.interfaces (interface_name id) hnames _ hinterface
      exact ⟨_, .inr (.inr ⟨hname, interface, hinterface, hnew, rfl⟩)⟩

theorem commonFamily_iff_of_reads {id : Nat} {children : List Element} {draft : Protocol.Draft}
    (h : Protocol.Draft.Reads id children draft) (family : String) :
    Protocol.commonFamily draft.interfaces.toTable = .ok family ↔
      named "interface" children ≠ []
        ∧ ∀ child ∈ named "interface" children, IsOfFamily child family := by
  rw [Protocol.commonFamily_eq_ok_iff]
  refine and_congr ?_ ⟨?_, ?_⟩
  · have hlength := h.interfaces.length_eq
    rw [← List.length_pos_iff_ne_nil, ← List.length_pos_iff_ne_nil, Table.values, List.length_map,
      hlength]
  · intro hfamily child hchild
    obtain ⟨index, hindex⟩ := List.mem_iff_getElem?.mp hchild
    obtain ⟨interface, hread, hat⟩ := h.interfaces.at?_of_part hindex
    rw [← hfamily interface ((Table.mem_values_iff _ interface).mpr ⟨index, hat⟩)]
    exact interface_family id index child interface hread
  · intro hfamily interface hinterface
    obtain ⟨index, hat⟩ := (Table.mem_values_iff _ interface).mp hinterface
    obtain ⟨-, child, hindex, hread⟩ := h.interfaces.of_at? hat
    have hchild := hfamily child (List.mem_of_getElem? hindex)
    exact isOfFamily_unique (interface_family id index child interface hread) hchild

theorem ofElement_isOk_iff_isProtocol (root : Element) (id : Nat) :
    (∃ protocol, Protocol.ofElement root id = .ok protocol) ↔ IsProtocol root := by
  simp only [Protocol.ofElement_eq_ok_iff]
  constructor
  · rintro ⟨_, htag, name, draft, family, hname, hdraft, hfamily, -⟩
    obtain ⟨hchildren, hnames⟩ := (protocol_children_iff root.children id).mp ⟨draft, hdraft⟩
    have hreads := Protocol.Draft.reads_of_foldlM hdraft
    obtain ⟨hsome, hfamily⟩ := (commonFamily_iff_of_reads hreads family).mp hfamily
    exact ⟨htag, ⟨name, hname⟩, hchildren, hsome, hnames, family, hfamily⟩
  · intro h
    obtain ⟨name, hname⟩ := h.name
    obtain ⟨draft, hdraft⟩ :=
      (protocol_children_iff root.children id).mpr ⟨h.children, h.interfaceNames⟩
    have hreads := Protocol.Draft.reads_of_foldlM hdraft
    obtain ⟨family, hfamily⟩ := h.family
    have hcommon := (commonFamily_iff_of_reads hreads family).mpr ⟨h.interfaces, hfamily⟩
    exact ⟨_, h.tag, name, draft, family, hname, hdraft, hcommon, rfl⟩

end Protocols

end Grammar
end Waybind
