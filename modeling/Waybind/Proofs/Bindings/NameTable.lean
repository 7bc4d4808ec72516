import Waybind.Bindings.Interface
import Waybind.Proofs.Protocol.Built
import Waybind.Proofs.Zig.Declaration

/-!
This module contains the names in the description of an interface. They stand between quotes as they
are, and are read back exactly if each of their characters stands for itself there.
-/

namespace Waybind
namespace Zig

def Verbatim (text : String) : Prop :=
  ∀ c ∈ text.toList, isLiteralChar c = true

instance (text : String) : Decidable (Verbatim text) :=
  List.decidableBAll _ _

section Literals

theorem length_of_literal? {text value rest : List Char} (h : literal? text = some (value, rest)) :
    rest.length < text.length := by
  unfold literal? at h
  split at h
  · obtain ⟨body, htail, -⟩ := quoted?_eq_some_iff.mp h
    have htail := congrArg List.length htail
    rw [List.length_tail, List.length_append, List.length_cons] at htail
    omega
  · cases h

/--
The values of literals that have a comma behind them, up to a closing brace, and what stands behind
that.
-/
def literals? (text : List Char) : Option (List String × List Char) :=
  if text.head? = some '\x7d' then
    some ([], text.tail)
  else
    match h : literal? text with
    | none => none
    | some (value, rest) =>
      have := length_of_literal? h
      if rest.head? = some ',' then
        (literals? rest.tail).map (Prod.map (String.ofList value :: ·) id)
      else
        none
termination_by text.length
decreasing_by
  rw [List.length_tail]
  omega

def literalList? (text : List Char) : Option (List String × List Char) :=
  (text.dropPrefix? "&.\x7b".toList).bind literals?

theorem literal?_verbatim_iff {text : String} {rest rest' : List Char} :
    literal? (("\"" ++ text ++ "\"").toList ++ rest) = some (text.toList, rest') ↔
      Verbatim text ∧ rest' = rest := by
  have htext : ("\"" ++ text ++ "\"").toList ++ rest = '"' :: (text.toList ++ '"' :: rest) := by
    simp
  rw [htext]
  exact quoted?_verbatim_iff

theorem literals?_eq_cons_iff {text rest : List Char} {value : String} {values : List String} :
    literals? text = some (value :: values, rest) ↔
      ∃ behind, literal? text = some (value.toList, ',' :: behind)
        ∧ literals? behind = some (values, rest) := by
  rw [literals?]
  constructor
  · intro h
    split at h
    · cases h
    · split at h
      · cases h
      · next first behind hfirst =>
        split at h
        · next hcomma =>
          obtain ⟨behind, rfl⟩ := List.head?_eq_some_iff.mp hcomma
          obtain ⟨⟨values', rest'⟩, hvalues, hpair⟩ := Option.map_eq_some_iff.mp h
          cases hpair
          exact ⟨behind, by rw [hfirst, String.toList_ofList], hvalues⟩
        · cases h
  · rintro ⟨behind, hfirst, hvalues⟩
    have hbrace : text.head? ≠ some '\x7d' := by
      intro hbrace
      rw [literal?, hbrace] at hfirst
      cases hfirst
    rw [if_neg hbrace]
    split
    · next hnone =>
      rw [hfirst] at hnone
      cases hnone
    · next hsome =>
      rw [hfirst] at hsome
      cases hsome
      rw [List.head?_cons, if_pos rfl, List.tail_cons, hvalues, String.ofList_toList]
      rfl

theorem literals?_verbatim_iff {names : List String} {rest rest' : List Char} :
    literals? ((String.join (names.map fun name => "\"" ++ name ++ "\",")).toList
        ++ '\x7d' :: rest) = some (names, rest') ↔
      (∀ name ∈ names, Verbatim name) ∧ rest' = rest := by
  induction names with
  | nil =>
    rw [List.map_nil, String.join_nil, literals?]
    simp [eq_comm]
  | cons name names ih =>
    generalize hlist : (String.join (names.map fun name => "\"" ++ name ++ "\",")).toList
      ++ '\x7d' :: rest = behind at ih
    have htext : (String.join ((name :: names).map fun name => "\"" ++ name ++ "\",")).toList
        ++ '\x7d' :: rest = ("\"" ++ name ++ "\"").toList ++ ',' :: behind := by
      simp [← hlist]
    rw [htext, literals?_eq_cons_iff, List.forall_mem_cons, and_assoc, ← ih]
    simp only [literal?_verbatim_iff]
    constructor
    · rintro ⟨_, ⟨hname, hbehind⟩, hnames⟩
      cases hbehind
      exact ⟨hname, hnames⟩
    · rintro ⟨hname, hnames⟩
      exact ⟨behind, ⟨hname, rfl⟩, hnames⟩

end Literals
end Zig

namespace Bindings

open Zig (Verbatim literal? literalList?)

theorem literalList?_stringList_iff {names : List String} {rest rest' : List Char} :
    literalList? ((stringList names).toList ++ rest) = some (names, rest') ↔
      (∀ name ∈ names, Verbatim name) ∧ rest' = rest := by
  have htext : (stringList names).toList ++ rest = "&.\x7b".toList
      ++ ((String.join (names.map fun name => "\"" ++ name ++ "\",")).toList
        ++ '\x7d' :: rest) := by
    simp [stringList]
  rw [htext, literalList?, Zig.dropPrefix?_append, Option.bind_some]
  exact Zig.literals?_verbatim_iff

def described? (interface : Interface) (field : String) : Option String :=
  match metadata interface with
  | .assignment _ (.init _ fields) => fields.lookup field
  | _ => none

def describedName? (interface : Interface) (rest : List Char) : Option (List Char × List Char) :=
  (described? interface "name").bind fun value => literal? (value.toList ++ rest)

/--
The names in a field of the description, and what is left of a text behind its value. A field that
is missing has no names.
-/
def describedNames? (interface : Interface) (field : String) (rest : List Char) :
    Option (List String × List Char) :=
  match described? interface field with
  | none => some ([], rest)
  | some value => literalList? (value.toList ++ rest)

theorem described?_name (interface : Interface) :
    described? interface "name" = some ("\"" ++ interface.fullName ++ "\"") := by
  rfl

theorem described?_event_names (interface : Interface) :
    described? interface "event_names" =
      if interface.events.isEmpty then none else some (stringList interface.events.names) := by
  unfold described? metadata
  cases interface.events.isEmpty with
  | false => rfl
  | true =>
    cases interface.requests.isEmpty with
    | false => rfl
    | true => rfl

theorem described?_request_names (interface : Interface) :
    described? interface "request_names" =
      if interface.requests.isEmpty then none else some (stringList interface.requests.names) := by
  unfold described? metadata
  cases interface.events.isEmpty with
  | false | true =>
    cases interface.requests.isEmpty with
    | false => rfl
    | true => rfl

theorem describedNames?_iff {α : Type} {table : Table α} {interface : Interface} {field : String}
    (hfield : described? interface field =
      if table.isEmpty then none else some (stringList table.names)) (rest : List Char) :
    describedNames? interface field rest = some (table.names, rest) ↔
      ∀ name ∈ table.names, Verbatim name := by
  unfold describedNames?
  rw [hfield]
  by_cases hempty : table.isEmpty = true
  · have hnames : table.names = [] := by
      rw [Table.names, List.isEmpty_iff.mp hempty, List.map_nil]
    simp [hempty, hnames]
  · rw [if_neg hempty]
    exact literalList?_stringList_iff.trans (and_iff_left rfl)

/--
The description of an interface that has been read names it, its events and its requests exactly if
all characters of these names stand for themselves between quotes. Names are not escaped there.
-/
theorem description_denotes_iff {root : Xml.Element} {id : Nat} {protocol : Protocol}
    {interface : Interface} (hread : Protocol.ofElement root id = .ok protocol)
    (hmem : interface ∈ protocol.interfaces.values) (rest : List Char) :
    (describedName? interface rest = some (interface.fullName.toList, rest) ↔
        Verbatim interface.fullName)
      ∧ (describedNames? interface "event_names" rest =
            some (interface.events.values.map (·.name), rest) ↔
          ∀ event ∈ interface.events.values, Verbatim event.name)
      ∧ (describedNames? interface "request_names" rest =
            some (interface.requests.values.map (·.name), rest) ↔
          ∀ request ∈ interface.requests.values, Verbatim request.name) := by
  obtain ⟨index, hindex⟩ := (Table.mem_values_iff _ interface).mp hmem
  obtain ⟨hbuilt, -⟩ := (Protocol.built_of_ofElement hread).interface index interface hindex
  refine ⟨?_, ?_, ?_⟩
  · rw [describedName?, described?_name, Option.bind_some]
    exact Zig.literal?_verbatim_iff.trans (and_iff_left rfl)
  · have hnames := describedNames?_iff (described?_event_names interface) rest
    rwa [hbuilt.event_names_eq, List.forall_mem_map] at hnames
  · have hnames := describedNames?_iff (described?_request_names interface) rest
    rwa [hbuilt.request_names_eq, List.forall_mem_map] at hnames

def namesOf (protocol : Protocol) : List (String × List String × List String) :=
  protocol.interfaces.values.map fun interface => (
    interface.fullName,
    interface.events.values.map (·.name),
    interface.requests.values.map (·.name))

theorem exists_of_namesOf {root : Xml.Element} {name : String} {events requests : List String}
    (h : (Protocol.ofElement root 0).toOption.map namesOf = some [(name, events, requests)]) :
    ∃ protocol interface, Protocol.ofElement root 0 = .ok protocol
      ∧ interface ∈ protocol.interfaces.values ∧ interface.fullName = name
      ∧ interface.events.values.map (·.name) = events
      ∧ interface.requests.values.map (·.name) = requests := by
  obtain ⟨protocol, hread, hnames⟩ := Option.map_eq_some_iff.mp h
  obtain ⟨interface, hvalues, hinterface⟩ := List.map_eq_singleton_iff.mp hnames
  cases hinterface
  refine ⟨protocol, interface, (Except.toOption_eq_some_iff _ _).mp hread, ?_, rfl, rfl, rfl⟩
  rw [hvalues]
  exact List.mem_singleton_self interface

def quaintDocument : Xml.Element :=
  ⟨"protocol", [("name", "d")], [
    ⟨"interface", [("name", "foo_it's"), ("version", "1")], [
      ⟨"event", [("name", "a,b")], [], ""⟩,
      ⟨"event", [("name", "")], [], ""⟩,
      ⟨"request", [("name", "é\x7d")], [], ""⟩], ""⟩], ""⟩

theorem description_denotes_quaint :
    ∃ protocol interface, Protocol.ofElement quaintDocument 0 = .ok protocol
      ∧ interface ∈ protocol.interfaces.values
      ∧ describedName? interface [] = some ("foo_it's".toList, [])
      ∧ describedNames? interface "event_names" [] = some (["a,b", ""], [])
      ∧ describedNames? interface "request_names" [] = some (["é\x7d"], []) := by
  have hnames : (Protocol.ofElement quaintDocument 0).toOption.map namesOf =
      some [("foo_it's", ["a,b", ""], ["é\x7d"])] := by
    decide +kernel
  obtain ⟨protocol, interface, hread, hmem, hname, hevents, hrequests⟩ := exists_of_namesOf hnames
  obtain ⟨hiff, heventsIff, hrequestsIff⟩ := description_denotes_iff hread hmem []
  rw [hname] at hiff
  rw [← List.forall_mem_map, hevents] at heventsIff
  rw [← List.forall_mem_map, hrequests] at hrequestsIff
  exact ⟨protocol, interface, hread, hmem, hiff.mpr (by decide), heventsIff.mpr (by decide),
    hrequestsIff.mpr (by decide)⟩

def quotedDocument : Xml.Element :=
  ⟨"protocol", [("name", "d")], [
    ⟨"interface", [("name", "foo_a\"b"), ("version", "1")], [], ""⟩], ""⟩

theorem exists_name_not_denoted :
    ∃ protocol interface, Protocol.ofElement quotedDocument 0 = .ok protocol
      ∧ interface ∈ protocol.interfaces.values ∧ interface.fullName = "foo_a\"b"
      ∧ ∀ rest, describedName? interface rest = some ("foo_a".toList, 'b' :: '"' :: rest) := by
  have hnames : (Protocol.ofElement quotedDocument 0).toOption.map namesOf =
      some [("foo_a\"b", [], [])] := by
    decide +kernel
  obtain ⟨protocol, interface, hread, hmem, hname, -, -⟩ := exists_of_namesOf hnames
  refine ⟨protocol, interface, hread, hmem, hname, ?_⟩
  intro rest
  have hverbatim : Verbatim "foo_a" := by decide
  rw [describedName?, described?_name, hname, Option.bind_some]
  exact Zig.quoted?_of_denotes (Zig.denotes_self hverbatim) ('b' :: '"' :: rest)

end Bindings
end Waybind
