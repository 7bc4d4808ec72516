import Mathlib.Tactic.MkIffOfInductiveProp
import Waybind.Proofs.Bindings.Bitfield
import Waybind.Proofs.Bindings.Imports
import Waybind.Proofs.Zig.Camel
import Waybind.Proofs.Zig.Identifier
import Waybind.Proofs.Zig.Scope

/-!
This module contains the scopes of the bindings of a namespace, and when no scope declares a name
twice. Names of one kind in one document are told apart when it is read. Nothing tells apart the
names of arguments, names that become one in camel case, names in different documents, and names
that the bindings declare themselves.
-/

namespace Waybind
namespace Bindings

open Lookup
open Registry (ofFamily)
open Xml (Element)
open Zig (Node Field Mark renderMarks declaredNames Distinct)

section Marks

def enumerantMarks (entry : Entry) : List Mark := [
  .text (Zig.comment ((entry.description.map (·.body)).or entry.summary) "///"),
  .name (Zig.ident entry.name),
  .text (" = " ++ toString entry.value ++ ",")]

def plainEnumMarks (enum : Enumeration) : List Mark := [
  .text "pub const ",
  .name (Zig.ident enum.typeName),
  .text (" = enum(" ++ enumBacking enum ++ ") \x7b"),
  .scope (enum.entries.values.flatMap enumerantMarks),
  .text "\x7d;\n"]

def enumMarks (enum : Enumeration) : List Mark :=
  .text (Zig.comment (enum.description.map (·.body)) "///")
    :: if enum.bitfield then (bitfield enum).marks else plainEnumMarks enum

def Typing.bodyMarks (typing : Typing) (interface : Interface) : List Mark :=
  (metadata interface).marks
    ++ interface.enums.values.flatMap enumMarks
    ++ ((typing.eventUnion? interface).map Node.marks).getD []
    ++ (typing.requestUnion interface).marks

def Typing.marks (typing : Typing) (interface : Interface) : List Mark := [
  .text (Zig.comment (interface.description.map (·.body)) "///"),
  .text "pub const ",
  .name (Zig.ident interface.handleName),
  .text " = enum(u32) \x7b\n_,\n",
  .scope (typing.bodyMarks interface),
  .text "\x7d;\n"]

def supportPath (runtimeDir file : String) : String :=
  if trimSlashes runtimeDir = "" then file else trimSlashes runtimeDir ++ "/" ++ file

def supportMarks (runtimeDir : String) (entry : String × String) : List Mark := [
  .text "const ",
  .name entry.1,
  .text (" = @import(\"" ++ supportPath runtimeDir entry.2 ++ "\")." ++ entry.1 ++ ";\n")]

def importMarks (family : String) : List Mark := [
  .text "const ",
  .name family,
  .text (" = @import(\"" ++ family ++ ".zig\");\n")]

def importsMarks (runtimeDir : String) (imported : List String) : List Mark :=
  [.text "\nconst ", .name "std", .text " = @import(\"std\");\n"]
    ++ supportImports.flatMap (supportMarks runtimeDir)
    ++ imported.flatMap importMarks

def protocolMarks (registry : Registry) (protocol : Protocol) : List Mark :=
  .text (protocolComment protocol)
    :: (placesOf protocol).flatMap fun place => (typing registry place).marks place.interface

def unitMarks (registry : Registry) (runtimeDir family : String) (imported : List String) :
    List Mark :=
  [.scope ((ofFamily registry.protocols family).flatMap (protocolMarks registry)
    ++ importsMarks runtimeDir imported)]

end Marks

section Render

theorem renderMarks_enumerantMarks (entry : Entry) :
    renderMarks (enumerantMarks entry) = enumerant entry := by
  unfold enumerant
  cases hdescription : entry.description with
  | none => simp [enumerantMarks, renderMarks, Mark.render, hdescription, String.append_assoc]
  | some description =>
    simp [enumerantMarks, renderMarks, Mark.render, hdescription, String.append_assoc]

theorem renderMarks_enumMarks (enum : Enumeration) :
    renderMarks (enumMarks enum) = enumText enum := by
  unfold enumMarks enumText
  cases enum.bitfield with
  | false =>
    simp [plainEnumMarks, renderMarks, Mark.render, Zig.renderMarks_flatMap,
      renderMarks_enumerantMarks, String.append_assoc]
  | true => simp [renderMarks, Mark.render, Node.renderMarks_marks]

theorem renderMarks_bodyMarks (typing : Typing) (interface : Interface) :
    renderMarks (typing.bodyMarks interface) =
      (metadata interface).render ++ String.join (interface.enums.values.map enumText)
        ++ ((typing.eventUnion? interface).map Node.render).getD ""
        ++ (typing.requestUnion interface).render := by
  have hevent : renderMarks (((typing.eventUnion? interface).map Node.marks).getD []) =
      ((typing.eventUnion? interface).map Node.render).getD "" := by
    cases typing.eventUnion? interface with
    | none => rfl
    | some union => exact union.renderMarks_marks
  simp only [Typing.bodyMarks, Zig.renderMarks_append, Zig.renderMarks_flatMap,
    renderMarks_enumMarks, Node.renderMarks_marks, hevent]

theorem renderMarks_marks (typing : Typing) (interface : Interface) :
    renderMarks (typing.marks interface) = typing.text interface := by
  unfold Typing.text handleText
  simp [Typing.marks, renderMarks, Mark.render, renderMarks_bodyMarks, String.append_assoc]

theorem renderMarks_supportMarks (runtimeDir : String) (entry : String × String) :
    renderMarks (supportMarks runtimeDir entry) = supportImport runtimeDir entry := by
  obtain ⟨name, file⟩ := entry
  simp only [supportMarks, supportImport, supportPath, renderMarks, Mark.render,
    String.append_empty, String.append_assoc]
  split
  · next hempty =>
    split
    · rfl
    · next hne => exact absurd hempty hne
  · next hne =>
    split
    · next hempty => exact absurd hempty hne
    · rw [String.append_assoc, String.append_assoc]

theorem renderMarks_std :
    renderMarks [.text "\nconst ", .name "std", .text " = @import(\"std\");\n"] =
      "\nconst std = @import(\"std\");\n" := by
  decide +kernel

theorem renderMarks_importMarks (family : String) :
    renderMarks (importMarks family) = namespaceImport family := by
  rw [namespaceImport, importMarks, renderMarks, renderMarks, renderMarks, renderMarks, Mark.render,
    Mark.render, Mark.render, String.append_empty]
  simp only [String.append_assoc]

theorem renderMarks_importsMarks (runtimeDir : String) (imported : List String) :
    renderMarks (importsMarks runtimeDir imported) = imports runtimeDir imported := by
  have hsupport : renderMarks (supportImports.flatMap (supportMarks runtimeDir)) =
      String.join (supportImports.map (supportImport runtimeDir)) :=
    (Zig.renderMarks_flatMap _ _).trans
      (congrArg String.join (List.map_congr_left fun _ _ => renderMarks_supportMarks _ _))
  have himported : renderMarks (imported.flatMap importMarks) =
      String.join (imported.map namespaceImport) :=
    (Zig.renderMarks_flatMap _ _).trans
      (congrArg String.join (List.map_congr_left fun _ _ => renderMarks_importMarks _))
  unfold importsMarks imports
  rw [Zig.renderMarks_append, Zig.renderMarks_append, renderMarks_std, hsupport, himported]

theorem renderMarks_unitMarks (registry : Registry) (runtimeDir family : String)
    (imported : List String) :
    renderMarks (unitMarks registry runtimeDir family imported) =
      namespaceText registry family ++ imports runtimeDir imported := by
  have hprotocol (protocol : Protocol) :
      renderMarks (protocolMarks registry protocol) = protocolText registry protocol := by
    simp only [protocolMarks, protocolText, renderMarks, Mark.render, Zig.renderMarks_flatMap,
      renderMarks_marks]
  simp only [unitMarks, namespaceText, renderMarks, Mark.render, Zig.renderMarks_append,
    Zig.renderMarks_flatMap, hprotocol, renderMarks_importsMarks, String.append_empty]

end Render

section Names

theorem nodup_map_ident {α : Type} (f : α → String) (xs : List α) :
    (xs.map fun x => Zig.ident (f x)).Nodup ↔ (xs.map f).Nodup := by
  have hmap : (xs.map fun x => Zig.ident (f x)) = (xs.map f).map Zig.ident := by
    rw [List.map_map]
    rfl
  rw [hmap, List.nodup_map_iff Zig.ident_injective]

theorem ident_eq_iff {name word : String} (hword : Zig.ident word = word) :
    Zig.ident name = word ↔ name = word :=
  ⟨fun h => Zig.ident_injective (h.trans hword.symm), fun h => h ▸ hword⟩

theorem nodup_flags {enum : Enumeration} (h : (enum.entries.values.map (·.name)).Nodup) :
    (enum.flags.map (·.2.name)).Nodup := by
  have hflags : enum.flags.Nodup := List.Nodup.of_map _ (Enumeration.nodup_bits_flags enum)
  refine (List.nodup_map_iff_inj_on hflags).mpr ?_
  rintro ⟨bit, entry⟩ hflag ⟨bit', entry'⟩ hflag' hname
  obtain ⟨hentry, hvalue⟩ := Enumeration.value_of_mem_flags hflag
  obtain ⟨hentry', hvalue'⟩ := Enumeration.value_of_mem_flags hflag'
  have heq : entry = entry' := List.inj_on_of_nodup_map h hentry hentry' hname
  subst heq
  have hbit : bit = bit' := by
    have hpow := hvalue.symm.trans hvalue'
    exact Nat.pow_right_injective (Nat.le_refl 2) (by exact_mod_cast hpow)
  rw [hbit]

end Names

section Distinct

theorem declaredNames_fields (fields : List Field) :
    declaredNames (fields.flatMap Field.marks) = fields.map fun field => Zig.ident field.name := by
  rw [Zig.declaredNames_flatMap, List.map_eq_flatMap]
  rfl

theorem distinct_fields (fields : List Field) : Distinct (fields.flatMap Field.marks) := by
  rw [Zig.distinct_flatMap]
  intro field _
  simp [Field.marks]

theorem distinct_struct (backing : Option String) (fields : List Field) :
    Distinct (Node.struct backing fields).marks ↔ (fields.map (·.name)).Nodup := by
  have hmarks : (Node.struct backing fields).marks =
      [.text (Zig.renderBacking backing), .text "\x7b", .scope (fields.flatMap Field.marks),
        .text "\x7d"] := by
    rfl
  rw [hmarks, ← nodup_map_ident, ← declaredNames_fields]
  simp [distinct_fields]

theorem distinct_assignment (name : String) (value : Node) :
    Distinct (Node.assignment name value).marks ↔ Distinct value.marks := by
  rw [Node.marks_assignment, Zig.distinct_append, Zig.distinct_append]
  simp

theorem declaredNames_assignment {name : String} {value : Node}
    (h : declaredNames value.marks = []) :
    declaredNames (Node.assignment name value).marks = [Zig.ident name] := by
  rw [Node.marks_assignment, Zig.declaredNames_append, Zig.declaredNames_append, h]
  rfl

section Payload

variable (fields : List Field)

theorem declaredNames_payload :
    declaredNames (Zig.payloadMarks
      (if fields.isEmpty then none else some (.struct none fields))) = [] := by
  split
  · rfl
  · rfl

theorem distinct_payload :
    Distinct (Zig.payloadMarks (if fields.isEmpty then none else some (.struct none fields))) ↔
      (fields.map (·.name)).Nodup := by
  split
  · next hempty =>
    rw [List.isEmpty_iff.mp hempty]
    simp [Zig.payloadMarks]
  · exact distinct_struct none fields

end Payload

variable (typing : Typing)

theorem variantMarks_variant (defaults : Bool) (message : Message) :
    let fields := message.args.map (typing.field defaults)
    Zig.variantMarks (typing.variant defaults message) =
      [.text (Zig.comment (message.description.map (·.body)) "///"),
        .name (Zig.ident message.name), .text ": "]
      ++ Zig.payloadMarks (if fields.isEmpty then none else some (.struct none fields))
      ++ [.text ","] := by
  rfl

theorem declaredNames_variant (defaults : Bool) (message : Message) :
    declaredNames (Zig.variantMarks (typing.variant defaults message)) =
      [Zig.ident message.name] := by
  rw [variantMarks_variant, Zig.declaredNames_append, Zig.declaredNames_append,
    declaredNames_payload]
  rfl

theorem distinct_variant (defaults : Bool) (message : Message) :
    Distinct (Zig.variantMarks (typing.variant defaults message)) ↔
      (message.args.map (·.name)).Nodup := by
  have hnames : (message.args.map (typing.field defaults)).map (·.name) =
      message.args.map (·.name) := by
    rw [List.map_map]
    rfl
  rw [variantMarks_variant, Zig.distinct_append, Zig.distinct_append, distinct_payload, hnames]
  simp

theorem distinct_union {α : Type} (messages : List α) (toMessage : α → Message) (defaults : Bool)
    (extra : List Node) (name : String) :
    Distinct (Node.assignment name (.union
        (messages.map fun message => typing.variant defaults (toMessage message)) extra)).marks ↔
      (messages.map fun message => (toMessage message).name).Nodup
        ∧ ∀ message ∈ messages, ((toMessage message).args.map (·.name)).Nodup := by
  have hmarks (variants : List (Zig.Variant Node)) : (Node.union variants extra).marks =
      [.text "union(enum) \x7b", .scope (Zig.variantsMarks variants),
        .text (String.join (Zig.renderExtra extra)), .text "\x7d"] := by
    rfl
  rw [distinct_assignment, hmarks, Zig.variantsMarks_eq, List.flatMap_map]
  have hnames : declaredNames (messages.flatMap fun message =>
        Zig.variantMarks (typing.variant defaults (toMessage message))) =
      messages.map fun message => Zig.ident (toMessage message).name := by
    rw [Zig.declaredNames_flatMap, List.map_eq_flatMap]
    simp only [declaredNames_variant]
  simp only [Zig.distinct_text, Zig.distinct_scope, Zig.distinct_nil, and_true,
    hnames, nodup_map_ident, Zig.distinct_flatMap, distinct_variant]

theorem distinct_eventUnion (interface : Interface) :
    Distinct (typing.eventUnion interface).marks ↔
      (interface.events.values.map (·.name)).Nodup
        ∧ ∀ event ∈ interface.events.values, (event.args.map (·.name)).Nodup :=
  distinct_union typing interface.events.values (·.toMessage) false _ "Event"

theorem distinct_requestUnion (interface : Interface) :
    Distinct (typing.requestUnion interface).marks ↔
      (interface.requests.values.map (·.name)).Nodup
        ∧ ∀ request ∈ interface.requests.values, (request.args.map (·.name)).Nodup := by
  have hvariants : (interface.requests.values.map typing.requestVariant).map Prod.fst =
      interface.requests.values.map fun request => typing.variant true request.toMessage := by
    rw [List.map_map]
    rfl
  rw [Typing.requestUnion, hvariants]
  exact distinct_union typing interface.requests.values (·.toMessage) true _ "Request"

theorem declaredNames_enumMarks (enum : Enumeration) :
    declaredNames (enumMarks enum) = [Zig.ident enum.typeName] := by
  unfold enumMarks
  split
  · exact declaredNames_assignment rfl
  · rfl

theorem names_bitfieldFields (enum : Enumeration) :
    (bitfieldFields enum).map (·.name) =
      enum.flags.map (·.2.name) ++ if enum.flags.length < 32 then ["_padding"] else [] := by
  unfold bitfieldFields
  simp only [List.length_map]
  split
  · rw [List.map_append, List.map_map]
    rfl
  · rw [List.map_map, List.append_nil]
    rfl

theorem distinct_enumMarks {enum : Enumeration} (h : (enum.entries.values.map (·.name)).Nodup) :
    Distinct (enumMarks enum) ↔ (enum.bitfield = true → enum.flags.length < 32 →
      ∀ flag ∈ enum.flags, flag.2.name ≠ "_padding") := by
  unfold enumMarks
  rw [Zig.distinct_text]
  split
  · next hbitfield =>
    rw [bitfield, distinct_assignment, distinct_struct, names_bitfieldFields]
    simp only [hbitfield, true_implies]
    split
    · next hfew =>
      rw [List.nodup_append, and_iff_right (nodup_flags h), and_iff_right (List.nodup_singleton _)]
      simp only [hfew, true_implies, List.forall_mem_map, List.mem_singleton, forall_eq]
    · next hmany =>
      simp [nodup_flags h, hmany]
  · next hplain =>
    have hnames : declaredNames (enum.entries.values.flatMap enumerantMarks) =
        enum.entries.values.map fun entry => Zig.ident entry.name := by
      rw [Zig.declaredNames_flatMap, List.map_eq_flatMap]
      rfl
    have hentries : Distinct (enum.entries.values.flatMap enumerantMarks) := by
      rw [Zig.distinct_flatMap]
      intro entry _
      simp [enumerantMarks]
    simp [plainEnumMarks, hplain, hnames, nodup_map_ident, h, hentries]

end Distinct

/--
What keeps the names in a handle apart: enumerations keep their names in camel case, and none of
them is named like a union, the arguments of a message have names of their own, and no flag is
named like the padding.
-/
@[mk_iff]
structure HandleApart (interface : Interface) : Prop where
  enums : (interface.enums.values.map (·.typeName)).Nodup
  request : ∀ enum ∈ interface.enums.values, enum.typeName ≠ "Request"
  event : interface.events.isEmpty = false →
    ∀ enum ∈ interface.enums.values, enum.typeName ≠ "Event"
  args : ∀ message ∈ messages interface, (message.args.map (·.name)).Nodup
  flags : ∀ enum ∈ interface.enums.values, enum.bitfield = true → enum.flags.length < 32 →
    ∀ flag ∈ enum.flags, flag.2.name ≠ "_padding"

instance (interface : Interface) : Decidable (HandleApart interface) :=
  decidable_of_iff' _ (handleApart_iff interface)

section Handle

variable (typing : Typing) (interface : Interface)

theorem declaredNames_bodyMarks :
    declaredNames (typing.bodyMarks interface) =
      "interface" :: (interface.enums.values.map fun enum => Zig.ident enum.typeName)
        ++ (if interface.events.isEmpty then [] else ["Event"]) ++ ["Request"] := by
  have hevent : declaredNames (((typing.eventUnion? interface).map Node.marks).getD []) =
      if interface.events.isEmpty then [] else ["Event"] := by
    unfold Typing.eventUnion?
    split
    · rfl
    · exact declaredNames_assignment rfl
  have henums : declaredNames (interface.enums.values.flatMap enumMarks) =
      interface.enums.values.map fun enum => Zig.ident enum.typeName := by
    rw [Zig.declaredNames_flatMap, List.map_eq_flatMap]
    simp only [declaredNames_enumMarks]
  have hmetadata : declaredNames (metadata interface).marks = ["interface"] :=
    declaredNames_assignment rfl
  have hrequest : declaredNames (typing.requestUnion interface).marks = ["Request"] :=
    declaredNames_assignment rfl
  rw [Typing.bodyMarks, Zig.declaredNames_append, Zig.declaredNames_append,
    Zig.declaredNames_append, hmetadata, henums, hevent, hrequest]
  rfl

theorem nodup_body_iff :
    (declaredNames (typing.bodyMarks interface)).Nodup ↔
      (interface.enums.values.map (·.typeName)).Nodup
        ∧ (∀ enum ∈ interface.enums.values, enum.typeName ≠ "Request")
        ∧ (interface.events.isEmpty = false →
          ∀ enum ∈ interface.enums.values, enum.typeName ≠ "Event") := by
  have hinterface (enum : Enumeration) : Zig.ident enum.typeName ≠ "interface" := by
    rw [Ne, ident_eq_iff (by decide +kernel)]
    exact Zig.camel_ne enum.name (by decide)
  have hrequest (enum : Enumeration) : Zig.ident enum.typeName = "Request" ↔
      enum.typeName = "Request" :=
    ident_eq_iff (by decide +kernel)
  have hevent (enum : Enumeration) : Zig.ident enum.typeName = "Event" ↔
      enum.typeName = "Event" :=
    ident_eq_iff (by decide +kernel)
  rw [declaredNames_bodyMarks, ← nodup_map_ident]
  cases interface.events.isEmpty with
  | true =>
    simp [List.nodup_append, hinterface, hrequest]
  | false =>
    have hboth : (∀ enum ∈ interface.enums.values, enum.typeName ≠ "Event"
          ∧ enum.typeName ≠ "Request") ↔
        (∀ enum ∈ interface.enums.values, enum.typeName ≠ "Request")
          ∧ ∀ enum ∈ interface.enums.values, enum.typeName ≠ "Event" := by
      rw [forall₂_and, and_comm]
    simpa [List.nodup_append, hinterface, hrequest, hevent] using fun _ => hboth

theorem forall_mem_messages {P : Message → Prop} :
    (∀ message ∈ messages interface, P message) ↔
      (∀ event ∈ interface.events.values, P event.toMessage)
        ∧ ∀ request ∈ interface.requests.values, P request.toMessage := by
  rw [messages, List.forall_mem_append, List.forall_mem_map, List.forall_mem_map]

variable {interface} {id : InterfaceId} (hbuilt : interface.Built id)

include hbuilt

theorem distinct_eventUnion? :
    Distinct (((typing.eventUnion? interface).map Node.marks).getD []) ↔
      ∀ event ∈ interface.events.values, (event.args.map (·.name)).Nodup := by
  have hnames : (interface.events.values.map (·.name)).Nodup := by
    rw [← hbuilt.event_names_eq]
    exact hbuilt.event_names_nodup
  unfold Typing.eventUnion?
  split
  · next hempty =>
    have hnone : interface.events.values = [] := by
      rw [Table.isEmpty, List.isEmpty_iff] at hempty
      rw [Table.values, hempty, List.map_nil]
    simp [hnone]
  · exact (distinct_eventUnion typing interface).trans (and_iff_right hnames)

theorem distinct_marks_iff : Distinct (typing.marks interface) ↔ HandleApart interface := by
  obtain ⟨parts, hrequests⟩ := hbuilt.exists_holds_requests
  have hmetadata : Distinct (metadata interface).marks := by
    rw [metadata, distinct_assignment]
    exact (Zig.distinct_text _ _).mpr Zig.distinct_nil
  have henums : Distinct (interface.enums.values.flatMap enumMarks) ↔
      ∀ enum ∈ interface.enums.values, enum.bitfield = true → enum.flags.length < 32 →
        ∀ flag ∈ enum.flags, flag.2.name ≠ "_padding" := by
    rw [Zig.distinct_flatMap]
    refine forall₂_congr fun enum henum => ?_
    obtain ⟨element, hread⟩ := hbuilt.exists_read_of_mem_enums henum
    exact distinct_enumMarks (Enumeration.nodup_of_ofElement hread)
  have hbody : Distinct (typing.bodyMarks interface) ↔
      (∀ enum ∈ interface.enums.values, enum.bitfield = true → enum.flags.length < 32 →
        ∀ flag ∈ enum.flags, flag.2.name ≠ "_padding")
      ∧ ∀ message ∈ messages interface, (message.args.map (·.name)).Nodup := by
    rw [Typing.bodyMarks, Zig.distinct_append, Zig.distinct_append, Zig.distinct_append,
      and_iff_right hmetadata, henums, distinct_eventUnion? typing hbuilt, distinct_requestUnion,
      and_iff_right hrequests.nodup_map, forall_mem_messages, and_assoc]
  simp only [Typing.marks, Zig.distinct_text, Zig.distinct_name, Zig.distinct_scope,
    Zig.distinct_nil, and_true, hbody, nodup_body_iff]
  constructor
  · rintro ⟨⟨henums, hrequest, hevent⟩, hflags, hargs⟩
    exact ⟨henums, hrequest, hevent, hargs, hflags⟩
  · rintro ⟨henums, hrequest, hevent, hargs, hflags⟩
    exact ⟨⟨henums, hrequest, hevent⟩, hflags, hargs⟩

end Handle

/--
What keeps the names in the bindings of a namespace apart: those in each handle are, and neither
two handles nor a handle and an import have the same name.
-/
@[mk_iff]
structure NamesApart (registry : Registry) (family : String) (imported : List String) : Prop where
  bodies : ∀ place ∈ unit registry family, HandleApart place.interface
  handles : ((unit registry family).map (·.interface.handleName)).Nodup
  support : ∀ place ∈ unit registry family, place.interface.handleName ∉ supportImports.map Prod.fst
  imports : ∀ name ∈ imported, name ∉ "std" :: supportImports.map Prod.fst
  clashes : ∀ name ∈ imported, ∀ place ∈ unit registry family,
    Zig.ident place.interface.handleName ≠ name

instance (registry : Registry) (family : String) (imported : List String) :
    Decidable (NamesApart registry family imported) :=
  decidable_of_iff' _ (namesApart_iff registry family imported)

section Unit

variable {registry : Registry} (family : String)

theorem declaredNames_protocols :
    declaredNames ((ofFamily registry.protocols family).flatMap (protocolMarks registry)) =
      (unit registry family).map fun place => Zig.ident place.interface.handleName := by
  have hprotocol (protocol : Protocol) : declaredNames (protocolMarks registry protocol) =
      (placesOf protocol).flatMap fun place => [Zig.ident place.interface.handleName] := by
    exact Zig.declaredNames_flatMap (fun place => (typing registry place).marks place.interface)
      (placesOf protocol)
  rw [Zig.declaredNames_flatMap, List.map_eq_flatMap, unit_eq_flatMap]
  simp only [hprotocol]

theorem declaredNames_importsMarks (runtimeDir : String) (imported : List String) :
    declaredNames (importsMarks runtimeDir imported) =
      "std" :: supportImports.map Prod.fst ++ imported := by
  have hsupport : declaredNames (supportImports.flatMap (supportMarks runtimeDir)) =
      supportImports.map Prod.fst := by
    rw [Zig.declaredNames_flatMap, List.map_eq_flatMap]
    rfl
  have himported : declaredNames (imported.flatMap importMarks) = imported := by
    rw [Zig.declaredNames_flatMap]
    exact List.flatMap_singleton' imported
  rw [importsMarks, Zig.declaredNames_append, Zig.declaredNames_append, hsupport, himported]
  rfl

theorem distinct_importsMarks (runtimeDir : String) (imported : List String) :
    Distinct (importsMarks runtimeDir imported) := by
  rw [importsMarks, Zig.distinct_append, Zig.distinct_append, Zig.distinct_flatMap,
    Zig.distinct_flatMap]
  simp [supportMarks, importMarks]

theorem handle_ne_std (interface : Interface) : Zig.ident interface.handleName ≠ "std" := by
  rw [Ne, ident_eq_iff (by decide +kernel)]
  exact Zig.camel_ne interface.name (by decide)

theorem ident_mem_support_iff (interface : Interface) :
    Zig.ident interface.handleName ∈ supportImports.map Prod.fst ↔
      interface.handleName ∈ supportImports.map Prod.fst := by
  have hself : ∀ name ∈ supportImports.map Prod.fst, Zig.ident name = name := by
    decide +kernel
  constructor
  · intro hmem
    rwa [(ident_eq_iff (hself _ hmem)).mp rfl]
  · intro hmem
    rwa [hself _ hmem]

theorem forall_ne_import_iff (interface : Interface) (imported : List String) :
    (∀ name ∈ "std" :: supportImports.map Prod.fst ++ imported,
        Zig.ident interface.handleName ≠ name) ↔
      interface.handleName ∉ supportImports.map Prod.fst
        ∧ ∀ name ∈ imported, Zig.ident interface.handleName ≠ name := by
  rw [List.cons_append, List.forall_mem_cons, List.forall_mem_append,
    and_iff_right (handle_ne_std interface), ← ident_mem_support_iff, ← List.forall_mem_ne]

theorem nodup_top_iff {imported : List String} (himported : imported.Nodup) (runtimeDir : String) :
    (declaredNames ((ofFamily registry.protocols family).flatMap (protocolMarks registry)
        ++ importsMarks runtimeDir imported)).Nodup ↔
      ((unit registry family).map (·.interface.handleName)).Nodup
        ∧ (∀ place ∈ unit registry family,
          place.interface.handleName ∉ supportImports.map Prod.fst)
        ∧ (∀ name ∈ imported, name ∉ "std" :: supportImports.map Prod.fst)
        ∧ ∀ name ∈ imported, ∀ place ∈ unit registry family,
          Zig.ident place.interface.handleName ≠ name := by
  have hfixed : ("std" :: supportImports.map Prod.fst).Nodup := by
    decide
  rw [Zig.declaredNames_append, declaredNames_protocols, declaredNames_importsMarks,
    List.nodup_append, nodup_map_ident, List.nodup_append, and_iff_right hfixed,
    and_iff_right himported]
  simp only [List.forall_mem_map, forall_ne_import_iff]
  constructor
  · rintro ⟨hhandles, himports, hplaces⟩
    exact ⟨hhandles, fun place hplace => (hplaces place hplace).1,
      fun name hname hmem => himports name hmem name hname rfl,
      fun name hname place hplace => (hplaces place hplace).2 name hname⟩
  · rintro ⟨hhandles, hsupport, himports, hclashes⟩
    refine ⟨hhandles, ?_, ?_⟩
    · rintro name hname _ hmem rfl
      exact himports name hmem hname
    · intro place hplace
      exact ⟨hsupport place hplace, fun name hname => hclashes name hname place hplace⟩

theorem distinct_protocols_iff (hcoherent : registry.Coherent) :
    Distinct ((ofFamily registry.protocols family).flatMap (protocolMarks registry)) ↔
      ∀ place ∈ unit registry family, HandleApart place.interface := by
  simp only [Zig.distinct_flatMap, protocolMarks, Zig.distinct_text, unit, List.forall_mem_flatMap]
  refine forall₂_congr fun protocol hprotocol => forall₂_congr fun place hplace => ?_
  obtain ⟨id, hbuilt⟩ : ∃ id, place.interface.Built id :=
    (registered_of_mem_unit (List.mem_flatMap.mpr ⟨protocol, hprotocol, hplace⟩)).interface_built
      hcoherent
  exact distinct_marks_iff _ hbuilt

theorem distinct_unitMarks_iff (hcoherent : registry.Coherent) {imported : List String}
    (himported : imported.Nodup) (runtimeDir : String) :
    Distinct (unitMarks registry runtimeDir family imported) ↔
      NamesApart registry family imported := by
  rw [unitMarks, Zig.distinct_scope, Zig.distinct_append, nodup_top_iff family himported,
    distinct_protocols_iff family hcoherent, and_iff_left (distinct_importsMarks _ _),
    and_iff_left Zig.distinct_nil]
  constructor
  · rintro ⟨⟨hhandles, hsupport, himports, hclashes⟩, hbodies⟩
    exact ⟨hbodies, hhandles, hsupport, himports, hclashes⟩
  · rintro ⟨hbodies, hhandles, hsupport, himports, hclashes⟩
    exact ⟨⟨hhandles, hsupport, himports, hclashes⟩, hbodies⟩

end Unit

/--
The text that is written for a namespace, with its names marked. No scope of it declares a name
twice exactly if what nothing else tells apart is apart.
-/
theorem scopes_distinct_iff (actions : List Registry.Action) (runtimeDir family : String)
    (emission : Emission)
    (h : emitNamespace (Registry.after actions) runtimeDir family = (.ok (), emission)) :
    let registry := Registry.after actions
    let imported := emission.registry.globalsOf family
    let marks := unitMarks registry runtimeDir family imported
    renderMarks marks = emission.text
      ∧ ((∀ scope ∈ Zig.scopesOf marks, scope.Nodup) ↔ NamesApart registry family imported) := by
  intro registry imported marks
  have hcoherent : registry.Coherent := Registry.coherent_after actions
  obtain ⟨-, -, htext, -⟩ := emitNamespace_eq_ok hcoherent h
  have himported : imported.Nodup := nodup_foldl_appendNew _ List.nodup_nil
  refine ⟨?_, distinct_unitMarks_iff family hcoherent himported runtimeDir⟩
  rw [renderMarks_unitMarks, htext]

theorem scopes_of_panel :
    ∃ emission, emitNamespace (Registry.after (panelDocuments.map .add)) "src" "ext" =
        (.ok (), emission)
      ∧ ∀ scope ∈ Zig.scopesOf (unitMarks (Registry.after (panelDocuments.map .add)) "src" "ext"
          (emission.registry.globalsOf "ext")), scope.Nodup := by
  have hok : (emitNamespace (Registry.after (panelDocuments.map .add)) "src" "ext").1 = .ok () := by
    decide +kernel
  have hapart : NamesApart (Registry.after (panelDocuments.map .add)) "ext"
      ((emitNamespace (Registry.after (panelDocuments.map .add)) "src" "ext").2.registry.globalsOf
        "ext") := by
    decide +kernel
  generalize hemit : emitNamespace (Registry.after (panelDocuments.map .add)) "src" "ext" = run
    at hok hapart
  obtain ⟨result, emission⟩ := run
  simp only at hok hapart
  subst hok
  obtain ⟨-, hdistinct⟩ :=
    scopes_distinct_iff (panelDocuments.map .add) "src" "ext" emission hemit
  exact ⟨emission, rfl, hdistinct.mpr hapart⟩

def repeatedArg : Element :=
  ⟨"protocol", [("name", "repeated")], [
    ⟨"interface", [("name", "foo_a"), ("version", "1")], [
      ⟨"request", [("name", "r")], [
        ⟨"arg", [("name", "x"), ("type", "int")], [], ""⟩,
        ⟨"arg", [("name", "x"), ("type", "int")], [], ""⟩], ""⟩], ""⟩], ""⟩

theorem exists_scope_not_nodup :
    ∃ emission, emitNamespace (Registry.after [.add repeatedArg]) "" "foo" = (.ok (), emission)
      ∧ renderMarks (unitMarks (Registry.after [.add repeatedArg]) "" "foo" []) = emission.text
      ∧ ["x", "x"] ∈ Zig.scopesOf (unitMarks (Registry.after [.add repeatedArg]) "" "foo" []) := by
  have hok : (emitNamespace (Registry.after [.add repeatedArg]) "" "foo").1 = .ok () := by
    decide +kernel
  have himported : (emitNamespace (Registry.after [.add repeatedArg]) "" "foo").2.registry.globalsOf
      "foo" = [] := by
    decide +kernel
  have hscope : ["x", "x"] ∈
      Zig.scopesOf (unitMarks (Registry.after [.add repeatedArg]) "" "foo" []) := by
    decide +kernel
  generalize hemit : emitNamespace (Registry.after [.add repeatedArg]) "" "foo" = run
    at hok himported
  obtain ⟨result, emission⟩ := run
  simp only at hok himported
  subst hok
  obtain ⟨-, -, htext, -⟩ := emitNamespace_eq_ok (Registry.coherent_after _) hemit
  rw [himported] at htext
  exact ⟨emission, rfl, by rw [renderMarks_unitMarks, htext], hscope⟩

end Bindings
end Waybind
