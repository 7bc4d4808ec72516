import Waybind.Proofs.Bindings.Signature
import Waybind.Proofs.Registry.Reachable
import Waybind.Proofs.Zig.Identifier

/-!
This module contains how events are decoded. What the bindings of an interface say about its events
stands in four tables: the names and the signatures in its description, the variants of the union and
the arms of the decoder. All of them have the events in the same order, and an arm reads exactly the
raw arguments of its signature. Only names that are not verbatim are torn apart where they are read.
-/

namespace Waybind
namespace Bindings

open Lookup
open Xml (Element)
open Zig (TypeExpr Conversion Node Variant Verbatim)

inductive RawExpr where
  | raw (index : Nat) (tag : WireType)
  | bitCast (operand : RawExpr)
  | enumFromInt (operand : RawExpr)
  | unlessZero (tested value : RawExpr)
  | slice (array : RawExpr) (element : TypeExpr)

def mentions : List Char → List (List Char)
  | [] => []
  | c :: cs =>
    if ['a', 'r', 'g', 's', '['].isPrefixOf (c :: cs) then cs.drop 4 :: mentions cs
    else mentions cs

theorem mentions_append_of_notMem {cs : List Char} (h : 'a' ∉ cs) (rest : List Char) :
    mentions (cs ++ rest) = mentions rest := by
  induction cs with
  | nil => rfl
  | cons c cs ih =>
    rw [List.mem_cons, not_or] at h
    rw [List.cons_append, mentions, if_neg, ih h.2]
    simp [h.1]

theorem mentions_name_append (tag : WireType) (rest : List Char) :
    mentions (tag.name.toList ++ rest) = mentions rest := by
  cases tag with
  | int | uint | fixed | string | object | newId | fd =>
    apply mentions_append_of_notMem
    decide
  | array => simp [WireType.name, mentions]

theorem isPrefixOf_append_cons {word : List Char} {c : Char} (h : c ∉ word) (cs rest : List Char) :
    word.isPrefixOf (cs ++ c :: rest) = word.isPrefixOf cs := by
  induction word generalizing cs with
  | nil => rfl
  | cons w word ih =>
    rw [List.mem_cons, not_or] at h
    cases cs with
    | nil => simp [List.isPrefixOf, Ne.symm h.1]
    | cons c' cs => simp [List.isPrefixOf, ih h.2]

theorem mentions_append_paren (cs rest : List Char) :
    mentions (cs ++ ')' :: rest) = (mentions cs).map (· ++ ')' :: rest) ++ mentions rest := by
  induction cs with
  | nil => simp [mentions]
  | cons c cs ih =>
    rw [List.cons_append, mentions, mentions, ← List.cons_append,
      isPrefixOf_append_cons (by decide), ih]
    split
    · next hword =>
      have hlength := (List.isPrefixOf_iff_prefix.mp hword).length_le
      rw [List.length_cons] at hlength
      rw [List.drop_append_of_le_length (by simpa using hlength), List.map_cons, List.cons_append]
    · rfl

theorem mentions_subset_append (cs rest : List Char) : mentions rest ⊆ mentions (cs ++ rest) := by
  induction cs with
  | nil => exact List.Subset.refl _
  | cons c cs ih =>
    rw [List.cons_append, mentions]
    split
    · exact List.subset_cons_of_subset _ ih
    · exact ih

namespace RawExpr

def render : RawExpr → String
  | .raw index tag => "args[" ++ toString index ++ "]." ++ tag.name
  | .bitCast operand => "@bitCast(" ++ operand.render ++ ")"
  | .enumFromInt operand => "@enumFromInt(" ++ operand.render ++ ")"
  | .unlessZero tested value => "if (" ++ tested.render ++ " == 0) null else " ++ value.render
  | .slice array element => array.render ++ ".slice(" ++ element.render ++ ")"

def reads : RawExpr → List (Nat × WireType)
  | .raw index tag => [(index, tag)]
  | .bitCast operand => operand.reads
  | .enumFromInt operand => operand.reads
  | .unlessZero tested value => tested.reads ++ value.reads
  | .slice array _ => array.reads

def types : RawExpr → List TypeExpr
  | .raw _ _ => []
  | .bitCast operand => operand.types
  | .enumFromInt operand => operand.types
  | .unlessZero tested value => tested.types ++ value.types
  | .slice array element => array.types ++ [element]

def Takes (read : Nat × WireType) (rest : List Char) : Prop :=
  (toString read.1 ++ "]." ++ read.2.name).toList <+: rest

section Mentions

variable {read : Nat × WireType}

theorem notMem_digits {c : Char} (hc : c.isDigit = false) (n : Nat) : c ∉ (toString n).toList := by
  rw [Nat.toString_eq_ofList_toDigits, String.toList_ofList]
  intro hmem
  have hdigit := Nat.isDigit_of_mem_toDigits (by decide) (by decide) hmem
  rw [hc] at hdigit
  cases hdigit

theorem takes_append_paren (text rest : List Char) :
    Takes read (text ++ ')' :: rest) ↔ Takes read text := by
  have hparen : ')' ∉ (toString read.1 ++ "]." ++ read.2.name).toList := by
    have hname : ')' ∉ read.2.name.toList := by
      cases read.2 <;> decide
    rw [String.toList_append, String.toList_append, List.mem_append, List.mem_append, not_or,
      not_or]
    exact ⟨⟨notMem_digits rfl read.1, by decide⟩, hname⟩
  rw [Takes, Takes, ← List.isPrefixOf_iff_prefix, ← List.isPrefixOf_iff_prefix,
    isPrefixOf_append_cons hparen]

theorem mentions_raw (index : Nat) (tag : WireType) (rest : List Char) :
    mentions ((raw index tag).render.toList ++ rest) =
      ((toString index ++ "]." ++ tag.name).toList ++ rest) :: mentions rest := by
  have hrest : mentions ("rgs[".toList ++ ((toString index).toList ++ ("].".toList
      ++ (tag.name.toList ++ rest)))) = mentions rest := by
    rw [mentions_append_of_notMem (by decide), mentions_append_of_notMem (notMem_digits rfl index),
      mentions_append_of_notMem (by decide), mentions_name_append]
  simp [render, mentions, ← hrest]

theorem mentions_bitCast (operand : RawExpr) (rest : List Char) :
    mentions ((bitCast operand).render.toList ++ rest) =
      mentions (operand.render.toList ++ ')' :: rest) := by
  simp [render, mentions]

theorem mentions_enumFromInt (operand : RawExpr) (rest : List Char) :
    mentions ((enumFromInt operand).render.toList ++ rest) =
      mentions (operand.render.toList ++ ')' :: rest) := by
  simp [render, mentions]

theorem mentions_unlessZero (tested value : RawExpr) (rest : List Char) :
    mentions ((unlessZero tested value).render.toList ++ rest) =
      mentions (tested.render.toList ++ (" == 0) null else ".toList
        ++ (value.render.toList ++ rest))) := by
  simp [render, mentions]

theorem mentions_slice (array : RawExpr) (element : TypeExpr) (rest : List Char) :
    mentions ((slice array element).render.toList ++ rest) =
      mentions (array.render.toList ++ (".slice(".toList
        ++ (element.render.toList ++ ')' :: rest))) := by
  simp [render]

theorem exists_takes {expr : RawExpr} (h : read ∈ expr.reads) (rest : List Char) :
    ∃ found ∈ mentions (expr.render.toList ++ rest), Takes read found := by
  -- an operand has at least the parenthesis that closes its cast behind it
  induction expr generalizing rest with
  | raw index tag =>
    rw [reads, List.mem_singleton] at h
    subst h
    rw [mentions_raw]
    exact ⟨_, List.mem_cons_self, List.prefix_append _ _⟩
  | bitCast operand ih =>
    rw [mentions_bitCast]
    exact ih h _
  | enumFromInt operand ih =>
    rw [mentions_enumFromInt]
    exact ih h _
  | unlessZero tested value ih ih' =>
    rw [mentions_unlessZero]
    rcases List.mem_append.mp h with h | h
    · exact ih h _
    · obtain ⟨found, hfound, htakes⟩ := ih' h rest
      refine ⟨found, ?_, htakes⟩
      apply mentions_subset_append
      apply mentions_subset_append
      exact hfound
  | slice array element ih =>
    rw [mentions_slice]
    exact ih h _

theorem forall_takes_iff {expr : RawExpr} (h : ∀ other ∈ expr.reads, other = read)
    (rest : List Char) :
    (∀ found ∈ mentions (expr.render.toList ++ rest), Takes read found) ↔
      (∀ type ∈ expr.types, ∀ found ∈ mentions type.render.toList, Takes read found)
        ∧ ∀ found ∈ mentions rest, Takes read found := by
  induction expr generalizing rest with
  | raw index tag =>
    have hread : (index, tag) = read := h _ (List.mem_singleton_self _)
    subst hread
    rw [mentions_raw, List.forall_mem_cons]
    simp [Takes, types]
  | bitCast operand ih =>
    rw [mentions_bitCast, ih h]
    simp [mentions, types]
  | enumFromInt operand ih =>
    rw [mentions_enumFromInt, ih h]
    simp [mentions, types]
  | unlessZero tested value ih ih' =>
    obtain ⟨htested, hvalue⟩ := List.forall_mem_append.mp h
    have hbetween : 'a' ∉ " == 0) null else ".toList := by decide
    rw [mentions_unlessZero, ih htested, mentions_append_of_notMem hbetween, ih' hvalue, types,
      List.forall_mem_append, and_assoc]
  | slice array element ih =>
    have hbetween : 'a' ∉ ".slice(".toList := by decide
    rw [mentions_slice, ih h, mentions_append_of_notMem hbetween, mentions_append_paren, types,
      List.forall_mem_append, List.forall_mem_append, List.forall_mem_singleton,
      List.forall_mem_map, and_assoc]
    simp only [takes_append_paren]

example : mentions (slice (raw 0 .array) (.handle none "F(args[3].int)")).render.toList =
    ["0].array.slice(F(args[3].int))".toList, "3].int))".toList] := by
  decide +kernel

end Mentions

/--
An expression that reads the raw argument at a position under a tag, and no other. Its text mentions
this one, and no other exactly if the texts of its types do not.
-/
structure ReadsOnly (index : Nat) (tag : WireType) (expr : RawExpr) : Prop where
  mem_reads_iff : ∀ read, read ∈ expr.reads ↔ read = (index, tag)
  exists_takes : ∃ rest ∈ mentions expr.render.toList, Takes (index, tag) rest
  forall_takes_iff : (∀ rest ∈ mentions expr.render.toList, Takes (index, tag) rest) ↔
    ∀ type ∈ expr.types, ∀ rest ∈ mentions type.render.toList, Takes (index, tag) rest

theorem readsOnly_of_mem_iff {index : Nat} {tag : WireType} {expr : RawExpr}
    (h : ∀ read, read ∈ expr.reads ↔ read = (index, tag)) : ReadsOnly index tag expr := by
  refine ⟨h, ?_, ?_⟩
  · have hexists := exists_takes ((h (index, tag)).mpr rfl) []
    rwa [List.append_nil] at hexists
  · have hforall := forall_takes_iff (fun read => (h read).mp) []
    rwa [List.append_nil, and_iff_left (by simp [mentions])] at hforall

def convert (raw : RawExpr) : Conversion → RawExpr
  | .keep => raw
  | .bitCast => .bitCast raw
  | .enumFromInt => .enumFromInt raw
  | .orNull conversion => .unlessZero raw (raw.convert conversion)
  | .slice element => .slice raw element

theorem render_convert (raw : RawExpr) (conversion : Conversion) :
    (raw.convert conversion).render = conversion.render raw.render := by
  induction conversion with
  | keep | bitCast | enumFromInt | slice element => rfl
  | orNull conversion ih =>
    rw [convert, render, ih]
    rfl

theorem mem_reads_convert (raw : RawExpr) (conversion : Conversion) (read : Nat × WireType) :
    read ∈ (raw.convert conversion).reads ↔ read ∈ raw.reads := by
  induction conversion with
  | keep | bitCast | enumFromInt | slice element => rfl
  | orNull conversion ih =>
    rw [convert, reads, List.mem_append, ih, or_self]

end RawExpr

structure DecodedEvent where
  variant : String
  fields : List (String × RawExpr)

namespace DecodedEvent

def render (event : DecodedEvent) : String :=
  if event.fields.isEmpty then
    "Event." ++ Zig.ident event.variant
  else
    "Event\x7b." ++ Zig.ident event.variant ++ " = .\x7b"
      ++ String.join (event.fields.map fun field =>
        "." ++ Zig.ident field.1 ++ " = " ++ field.2.render ++ ",")
      ++ "\x7d,\x7d"

def reads (event : DecodedEvent) : List (Nat × WireType) :=
  event.fields.flatMap (·.2.reads)

end DecodedEvent

structure EventTables where
  names : List String
  signatures : List (List WireType)
  variants : List (Variant Node)
  decoded : List DecodedEvent
  arms : List (String × String)
  rawArgs : String

namespace EventTables

/--
The tables are those in the description of an interface and in the union of its events. The names
are read back exactly if all of them are verbatim.
-/
structure In (tables : EventTables) (interface : Interface) (union : Node) : Prop where
  names_iff : ∀ rest, describedNames? interface "event_names" rest = some (tables.names, rest) ↔
    ∀ name ∈ tables.names, Verbatim name
  signatures : ∀ rest, describedSignatures? interface rest = some (tables.signatures, rest)
  union_eq : union = .assignment "Event" (.union tables.variants [
    .function "from_args" [("opcode", "u16"), (tables.rawArgs, "[]Argument")] "Event"
      (.ret (.switch "opcode" tables.arms))])
  text : union.render = "pub const Event = union(enum) \x7b"
    ++ String.join (tables.variants.map Zig.renderVariant) ++ "\n"
    ++ ("\npub fn from_args(opcode: u16," ++ tables.rawArgs
      ++ ": []Argument,) Event \x7b\nreturn switch (opcode) \x7b\n"
      ++ String.join (tables.arms.map fun arm => arm.1 ++ " => " ++ arm.2 ++ ",")
      ++ "\x7d;\n\x7d\n")
    ++ "\x7d;\n"

/--
Position `k` of each table is about the event `event`, which is decoded to `decoded` from raw
arguments with the tags `signature`.
-/
structure AgreeAt (tables : EventTables) (k : Nat) (event : Event) (decoded : DecodedEvent)
    (signature : List WireType) : Prop where
  arms_at : tables.arms[k]? = some (toString k, decoded.render)
  decoded_at : tables.decoded[k]? = some decoded
  variants_at : ∃ variant payload, tables.variants[k]? = some variant ∧ variant.name = event.name
    ∧ Zig.renderVariant variant =
      Zig.comment variant.doc "///" ++ Zig.ident event.name ++ ": " ++ payload ++ ","
  names_at : tables.names[k]? = some event.name
  signatures_at : tables.signatures[k]? = some signature
  variant_eq : decoded.variant = event.name
  signature_eq : signature = event.args.map (·.type)
  fields_eq : decoded.fields.map (·.1) = event.args.map (·.name)
  reads : ∀ (j : Nat) name expr, decoded.fields[j]? = some (name, expr) →
    ∃ tag, signature[j]? = some tag ∧ expr.ReadsOnly j tag
  reads_eq_nil : event.args = [] → decoded.reads = []

structure Agree (tables : EventTables) (events : List Event) : Prop where
  length : tables.names.length = events.length ∧ tables.signatures.length = events.length
    ∧ tables.variants.length = events.length ∧ tables.decoded.length = events.length
  arms_length : tables.arms.length = events.length + 1
  event : ∀ (k : Nat) event, events[k]? = some event →
    ∃ decoded signature, tables.AgreeAt k event decoded signature
  last : tables.arms[events.length]? = some ("else", "unreachable")
  idents_nodup : (tables.decoded.map fun decoded => Zig.ident decoded.variant).Nodup
  rawArgs : tables.rawArgs = "args" ∧ (∃ decoded ∈ tables.decoded, decoded.reads ≠ [])
    ∨ tables.rawArgs = "_" ∧ ∀ decoded ∈ tables.decoded, decoded.reads = []
  opcode : ∀ event ∈ events, event.opcode.toNat + 1 = event.number.toNat

theorem eq_map_of_getElem? {α β : Type} {f : α → β} {xs : List α} {ys : List β}
    (hlength : ys.length = xs.length) (h : ∀ (k : Nat) x, xs[k]? = some x → ys[k]? = some (f x)) :
    ys = xs.map f := by
  apply List.ext_getElem?
  intro k
  rw [List.getElem?_map]
  cases hx : xs[k]? with
  | none =>
    rw [List.getElem?_eq_none_iff] at hx
    rw [Option.map_none, List.getElem?_eq_none_iff, hlength]
    exact hx
  | some x => exact h k x hx

theorem Agree.names_eq {tables : EventTables} {events : List Event} (h : tables.Agree events) :
    tables.names = events.map (·.name) := by
  apply eq_map_of_getElem? h.length.1
  intro k event hevent
  obtain ⟨_, _, hat⟩ := h.event k event hevent
  exact hat.names_at

theorem Agree.signatures_eq {tables : EventTables} {events : List Event} (h : tables.Agree events) :
    tables.signatures = events.map (·.args.map (·.type)) := by
  apply eq_map_of_getElem? h.length.2.1
  intro k event hevent
  obtain ⟨_, _, hat⟩ := h.event k event hevent
  rw [hat.signatures_at, hat.signature_eq]

end EventTables

namespace Typing

variable (typing : Typing)

def decoded (event : Event) : DecodedEvent where
  variant := event.name
  fields := event.args.zipIdx.map fun arg =>
    (arg.1.name, (RawExpr.raw arg.2 arg.1.type).convert (typing.conversion arg.1))

def eventTables (interface : Interface) : EventTables where
  names := interface.events.names
  signatures := interface.events.values.map (·.args.map (·.type))
  variants := interface.events.values.map fun event => typing.variant false event.toMessage
  decoded := interface.events.values.map typing.decoded
  arms := (interface.events.values.map fun event =>
    (toString event.opcode.toNat, (typing.decoded event).render)) ++ [("else", "unreachable")]
  rawArgs := if interface.events.values.any (!·.args.isEmpty) then "args" else "_"

theorem render_decoded (event : Event) :
    (typing.decoded event).render = typing.decodedEvent event := by
  have hfields : ((typing.decoded event).fields.map fun field =>
      "." ++ Zig.ident field.1 ++ " = " ++ field.2.render ++ ",") =
        (event.args.zipIdx.map typing.decodedField).map Zig.renderInit := by
    rw [decoded, List.map_map, List.map_map]
    apply List.map_congr_left
    intro arg _
    rw [Function.comp_apply, RawExpr.render_convert]
    rfl
  have hempty : (typing.decoded event).fields.isEmpty = event.args.isEmpty := by
    rw [decoded, List.isEmpty_map]
    cases event.args <;> rfl
  rw [DecodedEvent.render, decodedEvent, hfields, hempty]
  split
  · rfl
  · have hopen : "Event\x7b." = "Event" ++ "\x7b" ++ "." := rfl
    have hpayload : " = .\x7b" = " = " ++ "." ++ "\x7b" := rfl
    have hclose : "\x7d,\x7d" = "\x7d" ++ "," ++ "\x7d" := rfl
    rw [hopen, hpayload, hclose]
    simp only [decoded, Node.render_init, List.map_singleton, String.join_cons, String.join_nil,
      Zig.renderInit, Option.getD_some, Option.getD_none, String.append_empty, String.append_assoc]

theorem fields_decoded (event : Event) :
    (typing.decoded event).fields.map (·.1) = event.args.map (·.name) := by
  simp only [decoded, List.map_map]
  rw [← List.zipIdx_map_fst 0 event.args, List.map_map, List.zipIdx_map_fst]
  rfl

theorem reads_decoded_field {event : Event} {j : Nat} {name : String} {expr : RawExpr}
    (h : (typing.decoded event).fields[j]? = some (name, expr)) :
    ∃ tag, (event.args.map (·.type))[j]? = some tag ∧ expr.ReadsOnly j tag := by
  simp only [decoded, List.getElem?_map, List.getElem?_zipIdx, Option.map_map,
    Option.map_eq_some_iff, Function.comp_apply, Nat.zero_add, Prod.mk.injEq] at h
  obtain ⟨arg, harg, -, rfl⟩ := h
  refine ⟨arg.type, by simp [harg], ?_⟩
  apply RawExpr.readsOnly_of_mem_iff
  intro read
  rw [RawExpr.mem_reads_convert, RawExpr.reads, List.mem_singleton]

theorem reads_decoded_eq_nil_iff (event : Event) :
    (typing.decoded event).reads = [] ↔ event.args = [] := by
  constructor
  · intro hreads
    by_contra hargs
    obtain ⟨arg, args, hargs⟩ := List.exists_cons_of_ne_nil hargs
    have hmem : (0, arg.type) ∈ (typing.decoded event).reads := by
      simp [DecodedEvent.reads, decoded, hargs, RawExpr.mem_reads_convert, RawExpr.reads]
    rw [hreads] at hmem
    cases hmem
  · intro hargs
    simp [DecodedEvent.reads, decoded, hargs]

theorem render_decoder (rawArgs : String) (arms : List (String × String)) :
    (Node.function "from_args" [("opcode", "u16"), (rawArgs, "[]Argument")] "Event"
      (.ret (.switch "opcode" arms))).render =
        "\npub fn from_args(opcode: u16," ++ rawArgs
          ++ ": []Argument,) Event \x7b\nreturn switch (opcode) \x7b\n"
          ++ String.join (arms.map fun arm => arm.1 ++ " => " ++ arm.2 ++ ",")
          ++ "\x7d;\n\x7d\n" := by
  have hparams : "\npub fn from_args(opcode: u16," =
      "\npub fn " ++ Zig.ident "from_args" ++ "(" ++ "opcode" ++ ": " ++ "u16" ++ "," := by
    decide +kernel
  have hbody : ": []Argument,) Event \x7b\nreturn switch (opcode) \x7b\n" =
      ": " ++ "[]Argument" ++ "," ++ ") " ++ "Event" ++ " \x7b\n" ++ "return " ++ "switch ("
        ++ "opcode" ++ ") \x7b\n" := rfl
  have hclose : "\x7d;\n\x7d\n" = "\x7d" ++ ";\n" ++ "\x7d\n" := rfl
  have harms : (fun arm : String × String => arm.1 ++ " => " ++ arm.2 ++ ",") = Zig.renderArm := rfl
  rw [hparams, hbody, hclose, harms]
  rw [Node.render_function, Node.render_ret, Node.render_switch]
  simp only [Zig.renderParam, List.map_cons, List.map_nil, String.join_cons, String.join_nil,
    String.append_empty, String.append_assoc]

theorem render_union (variants : List (Variant Node)) (function : Node) :
    (Node.assignment "Event" (.union variants [function])).render =
      "pub const Event = union(enum) \x7b" ++ String.join (variants.map Zig.renderVariant)
        ++ "\n" ++ function.render ++ "\x7d;\n" := by
  have hopen : "pub const Event = union(enum) \x7b" =
      "pub const " ++ Zig.ident "Event" ++ " = " ++ "union(enum) \x7b" := by
    decide +kernel
  have hclose : "\x7d;\n" = "\x7d" ++ ";\n" := rfl
  rw [hopen, hclose, Node.render_assignment, Node.render_union, Zig.renderExtra_singleton]
  simp only [String.join_cons, String.join_nil, String.append_empty, String.append_assoc]

theorem eventTables_in {interface : Interface} (h : interface.events.values ≠ []) :
    (typing.eventTables interface).In interface (typing.eventUnion interface) := by
  -- the description has the two tables only if there are events
  have hevents : interface.events.isEmpty = false := by
    simpa [Table.values, Table.isEmpty] using h
  have hunion : typing.eventUnion interface = .assignment "Event"
      (.union (typing.eventTables interface).variants [
        .function "from_args"
          [("opcode", "u16"), ((typing.eventTables interface).rawArgs, "[]Argument")] "Event"
          (.ret (.switch "opcode" (typing.eventTables interface).arms))]) := by
    simp only [eventUnion, decoder, eventTables, render_decoded]
  refine ⟨?_, ?_, hunion, ?_⟩
  · exact describedNames?_iff (described?_event_names interface)
  · exact describedSignatures?_eq hevents
  · rw [hunion, render_union, render_decoder]

theorem getElem?_map_values {α β : Type} {table : Table α} {k : Nat} {value : α}
    (h : table.at? k = some value) (g : α → β) : (table.values.map g)[k]? = some (g value) := by
  have hvalue : table.values[k]? = some value := h
  rw [List.getElem?_map, hvalue, Option.map_some]

section Built

variable {place : InterfaceId} {interface : Interface} (h : interface.Built place)

include h

theorem eventTables_agreeAt {k : Nat} {event : Event}
    (hevent : interface.events.at? k = some event) :
    (typing.eventTables interface).AgreeAt k event (typing.decoded event)
      (event.args.map (·.type)) where
  arms_at := by
    have harm := getElem?_map_values hevent fun event =>
      (toString event.opcode.toNat, (typing.decoded event).render)
    rw [eventTables, List.getElem?_append_left (List.getElem?_eq_some_iff.mp harm).1, harm,
      h.event_opcode hevent]
  decoded_at := getElem?_map_values hevent _
  variants_at := by
    refine ⟨_, Zig.renderPayload (typing.variant false event.toMessage).payload,
      getElem?_map_values hevent _, rfl, rfl⟩
  names_at := (h.message .event k event.toMessage (by rw [Interface.message?, hevent]; rfl)).1
  signatures_at := getElem?_map_values hevent _
  variant_eq := rfl
  signature_eq := rfl
  fields_eq := typing.fields_decoded event
  reads _ _ _ hfield := typing.reads_decoded_field hfield
  reads_eq_nil := (typing.reads_decoded_eq_nil_iff event).mpr

theorem eventTables_agree :
    (typing.eventTables interface).Agree interface.events.values where
  length := by simp [eventTables, Table.names, Table.values]
  arms_length := by simp [eventTables]
  event := by
    intro k event hevent
    exact ⟨_, _, typing.eventTables_agreeAt h hevent⟩
  last := by simp [eventTables]
  idents_nodup := by
    have hidents : ((typing.eventTables interface).decoded.map fun decoded =>
        Zig.ident decoded.variant) = interface.events.names.map Zig.ident := by
      rw [h.event_names_eq, eventTables, List.map_map, List.map_map]
      rfl
    rw [hidents]
    exact h.event_names_nodup.map Zig.ident_injective
  rawArgs := by
    simp only [eventTables, List.mem_map, exists_exists_and_eq_and, forall_exists_index, and_imp,
      forall_apply_eq_imp_iff₂, ne_eq, reads_decoded_eq_nil_iff]
    split
    · next hany =>
      left
      simpa using hany
    · next hany =>
      right
      simpa using hany
  opcode := by
    intro event hevent
    obtain ⟨k, hk⟩ := (Table.mem_values_iff _ event).mp hevent
    rw [h.event_opcode hk, h.event_number hk]

end Built

end Typing

/--
The tables of the events of an interface agree, whenever the payloads of its events can be written.
The names of the events are not escaped in the description.
-/
theorem event_tables_agree (actions : List Registry.Action) (place : Place)
    (notices : Array Notice) (variants : List (Variant Node)) (state : Lookup.State)
    (hplace : Registered (Registry.after actions) place)
    (hevents : place.interface.events.values ≠ [])
    (hpayloads : exec (place.interface.events.values.mapM fun event =>
      messageVariant place false event.toMessage) ⟨Registry.after actions, notices⟩ =
        (.ok variants, state)) :
    ∃ tables union, (exec (eventUnion place) ⟨Registry.after actions, notices⟩).1 = .ok union
      ∧ tables.variants = variants ∧ EventTables.In tables place.interface union
      ∧ EventTables.Agree tables place.interface.events.values := by
  have hcoherent := Registry.coherent_after actions
  have hlike : (Registry.after actions).Like (Registry.after actions) := ⟨hcoherent, rfl⟩
  obtain ⟨id, hbuilt⟩ := hplace.interface_built hcoherent
  have hvariants := runs_eventVariants hcoherent hplace
  have hunion := runs_eventUnion hcoherent hplace
  obtain ⟨hfault, rfl⟩ := hvariants.eq_of_exec_ok hlike (congrArg Prod.fst hpayloads)
  rw [hfault] at hunion
  obtain ⟨-, hrun, -⟩ := hunion ⟨Registry.after actions, notices⟩ hlike
  refine ⟨(typing (Registry.after actions) place).eventTables place.interface, _, hrun, rfl, ?_, ?_⟩
  · exact Typing.eventTables_in _ hevents
  · exact Typing.eventTables_agree _ hbuilt

def keyboardDocument : Element :=
  ⟨"protocol", [("name", "wayland")], [
    ⟨"interface", [("name", "wl_keyboard"), ("version", "1")], [
      ⟨"enum", [("name", "key_state")], [
        ⟨"entry", [("name", "released"), ("value", "0")], [], ""⟩], ""⟩,
      ⟨"event", [("name", "enter")], [
        ⟨"arg", [("name", "serial"), ("type", "uint")], [], ""⟩,
        ⟨"arg", [("name", "heir"), ("type", "object"), ("interface", "wl_keyboard"),
          ("allow-null", "true")], [], ""⟩], ""⟩,
      ⟨"event", [("name", "leave")], [], ""⟩,
      ⟨"event", [("name", "key")], [
        ⟨"arg", [("name", "state"), ("type", "uint"), ("enum", "key_state")], [], ""⟩], ""⟩],
      ""⟩], ""⟩

def firstPlace (document : Element) : Place :=
  let protocols := (Registry.after [.add document]).protocols
  (protocols.flatMap fun protocol => protocol.interfaces.values.map (⟨protocol, ·⟩)).headD default

def keyboard : Place :=
  firstPlace keyboardDocument

theorem event_tables_agree_keyboard :
    ∃ tables union, (exec (eventUnion keyboard)
        ⟨Registry.after [.add keyboardDocument], #[]⟩).1 = .ok union
      ∧ EventTables.In tables keyboard.interface union
      ∧ EventTables.Agree tables keyboard.interface.events.values
      ∧ (∀ rest, describedNames? keyboard.interface "event_names" rest =
        some (["enter", "leave", "key"], rest))
      ∧ ∀ rest, describedSignatures? keyboard.interface rest =
        some ([[.uint, .object], [], [.uint]], rest) := by
  have hplace : Registered (Registry.after [.add keyboardDocument]) keyboard := by
    constructor
    · decide +kernel
    · decide +kernel
  have hevents : keyboard.interface.events.values ≠ [] := by
    decide +kernel
  have hok : (exec (keyboard.interface.events.values.mapM fun event =>
      messageVariant keyboard false event.toMessage)
        ⟨Registry.after [.add keyboardDocument], #[]⟩).1.toOption.isSome = true := by
    decide +kernel
  generalize hrun : exec (keyboard.interface.events.values.mapM fun event =>
    messageVariant keyboard false event.toMessage)
      ⟨Registry.after [.add keyboardDocument], #[]⟩ = run at hok
  obtain ⟨result, state⟩ := run
  cases result with
  | error error => cases hok
  | ok variants =>
    obtain ⟨tables, union, hunion, -, hin, hagree⟩ :=
      event_tables_agree [.add keyboardDocument] keyboard #[] variants state hplace hevents hrun
    have hnames : tables.names = ["enter", "leave", "key"] :=
      hagree.names_eq.trans (by decide +kernel)
    have hsignatures : tables.signatures = [[.uint, .object], [], [.uint]] :=
      hagree.signatures_eq.trans (by decide +kernel)
    refine ⟨tables, union, hunion, hin, hagree, ?_, ?_⟩
    · intro rest
      rw [← hnames, hin.names_iff, hnames]
      decide
    · rw [← hsignatures]
      exact hin.signatures

def tornDocument : Element :=
  ⟨"protocol", [("name", "d")], [
    ⟨"interface", [("name", "foo_a"), ("version", "1")], [
      ⟨"event", [("name", "x\",\"y")], [], ""⟩,
      ⟨"event", [("name", "z")], [], ""⟩], ""⟩], ""⟩

theorem exists_event_name_torn :
    ∃ place, Registered (Registry.after [.add tornDocument]) place
      ∧ place.interface.events.values.map (·.name) = ["x\",\"y", "z"]
      ∧ (exec (eventUnion place) ⟨Registry.after [.add tornDocument], #[]⟩).1.toOption.isSome = true
      ∧ ∀ rest, describedNames? place.interface "event_names" rest =
        some (["x", "y", "z"], rest) := by
  refine ⟨firstPlace tornDocument, ⟨by decide +kernel, by decide +kernel⟩, by decide +kernel,
    by decide +kernel, ?_⟩
  intro rest
  have hempty : (firstPlace tornDocument).interface.events.isEmpty = false := by
    decide +kernel
  have hnames : (firstPlace tornDocument).interface.events.names = ["x\",\"y", "z"] := by
    decide +kernel
  have htext : stringList ["x\",\"y", "z"] = stringList ["x", "y", "z"] := by
    decide +kernel
  rw [describedNames?, described?_event_names, hempty, hnames, htext]
  exact literalList?_stringList_iff.mpr ⟨by decide, rfl⟩

end Bindings
end Waybind
