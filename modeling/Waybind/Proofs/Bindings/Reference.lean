import Waybind.Proofs.Registry.History
import Waybind.Proofs.Registry.Resolution
import Waybind.Proofs.Zig.Camel
import Waybind.Proofs.Zig.Declaration

/-!
This module contains how references in the bindings are spelled, next to the declarations that they
refer to. A declaration quotes a name where it has to, and a reference does not, so that the two are
the same exactly if nothing has to be quoted.
-/

namespace Waybind

namespace Lookup

variable {registry : Registry} (hcoherent : registry.Coherent)

include hcoherent

theorem fullName_of_findInterface {current : Protocol} (hcurrent : current ∈ registry.protocols)
    {name : String} {found : Interface}
    (h : eval registry (findInterface current name) = .ok found) : found.fullName = name := by
  rw [eval_findInterface_eq_ok_iff hcoherent hcurrent] at h
  obtain ⟨_, -, -, hname⟩ := h.exists_declares hcurrent
  exact hname

theorem dot_notMem_of_findEnum {place : Place} (hplace : Registered registry place) {name : String}
    {owner : Interface} {enum : Enumeration}
    (h : eval registry (findEnum place name) = .ok (owner, enum)) :
    '.' ∉ enum.name.toList ∧ (owner = place.interface ∨ '.' ∉ owner.fullName.toList) := by
  rw [eval_findEnum_eq_ok_iff hcoherent hplace] at h
  cases h with
  | own hname howner henum =>
    rw [henum.2]
    exact ⟨hname, .inl howner⟩
  | other left right hname hleft hright howner henum =>
    obtain ⟨_, -, -, hfull⟩ := howner.exists_declares hplace.protocol_mem
    rw [henum.2, hfull]
    exact ⟨hright, .inr hleft⟩

end Lookup

namespace Bindings

open Lookup
open Zig (TypeExpr renderQualifier declared? isBareInCamel)

/--
A name and the text that declares it in camel case: the identifier in the text is the camel case
form in quotes if need be, and that form itself exactly if there is no need.
-/
structure Spelled (name text : String) : Prop where
  declared : declared? text = some (Zig.ident (Zig.camel name))
  bare_iff : declared? text = some (Zig.camel name) ↔ isBareInCamel name = true

theorem spelled_of_declared {name text : String}
    (h : declared? text = some (Zig.ident (Zig.camel name))) : Spelled name text := by
  refine ⟨h, ?_⟩
  rw [h, Option.some.injEq]
  exact Zig.ident_camel_eq_iff name

theorem spelled_enumText (enum : Enumeration) : Spelled enum.name (enumText enum) := by
  apply spelled_of_declared
  unfold enumText
  split
  · have hrender : (bitfield enum).render = "pub const " ++ Zig.ident enum.typeName ++ " = "
        ++ (Zig.Node.struct (some "u32") (bitfieldFields enum)).render ++ ";\n" := by
      rfl
    rw [hrender]
    simp only [String.append_assoc]
    rw [← String.append_assoc, ← String.append_assoc]
    exact Zig.declared?_eq_some _ enum.typeName (by simp)
  · simp only [String.append_assoc]
    rw [← String.append_assoc, ← String.append_assoc]
    exact Zig.declared?_eq_some _ enum.typeName (by simp)

theorem spelled_handleText (interface : Interface) (event : Option Zig.Node) (request : Zig.Node) :
    Spelled interface.name (handleText interface event request) := by
  apply spelled_of_declared
  unfold handleText
  simp only [String.append_assoc]
  rw [← String.append_assoc, ← String.append_assoc]
  exact Zig.declared?_eq_some _ interface.handleName (by simp)

section Dotted

def dotted (text : String) : List String :=
  (Text.pieces (· == '.') text.toList).map String.ofList

theorem dotted_of_notMem {text : String} (h : '.' ∉ text.toList) : dotted text = [text] := by
  rw [dotted, Text.pieces_of_cut_eq_false (Text.cut_eq_false_of_notMem h), List.map_singleton,
    String.ofList_toList]

theorem dotted_append {text : String} (h : '.' ∉ text.toList) (rest : String) :
    dotted (text ++ "." ++ rest) = text :: dotted rest := by
  have htext : (text ++ "." ++ rest).toList = text.toList ++ '.' :: rest.toList := by
    simp
  rw [dotted, htext, Text.pieces_append_cons (Text.cut_eq_false_of_notMem h) rfl, List.map_cons,
    String.ofList_toList, dotted]

theorem dot_notMem_camel {name : String} (h : '.' ∉ name.toList) : '.' ∉ (Zig.camel name).toList :=
  fun hmem => h (Zig.mem_of_mem_camel name rfl (by decide) hmem)

theorem dotted_enumTypeOf {current owner : Interface} {enum : Enumeration}
    (henum : '.' ∉ enum.name.toList)
    (howner : owner.id = current.id ∨ '.' ∉ owner.fullName.toList) :
    dotted (enumTypeOf current owner enum).render =
      (if owner.id = current.id then [] else
        (qualifier current owner).toList ++ [owner.handleName]) ++ [enum.typeName] := by
  have htype : '.' ∉ enum.typeName.toList := dot_notMem_camel henum
  unfold enumTypeOf
  by_cases hid : owner.id = current.id
  · rw [if_pos hid, if_pos hid]
    exact dotted_of_notMem htype
  · have hfull := howner.resolve_left hid
    rw [Interface.fullName, String.toList_append, String.toList_append, List.mem_append,
      List.mem_append, not_or, not_or] at hfull
    have hhandle : '.' ∉ owner.handleName.toList := dot_notMem_camel hfull.2
    rw [if_neg hid, if_neg hid, TypeExpr.render]
    unfold qualifier
    split
    · rw [renderQualifier, String.empty_append, dotted_append hhandle, dotted_of_notMem htype]
      rfl
    · rw [renderQualifier, String.append_assoc, String.append_assoc, dotted_append hfull.1.1,
        ← String.append_assoc, dotted_append hhandle, dotted_of_notMem htype]
      rfl

end Dotted

section Eval

variable {registry : Registry}

def HandleSpelled (registry : Registry) (interface : Interface) : Prop :=
  ∀ protocol text, Registered registry ⟨protocol, interface⟩ →
    eval registry (interfaceText ⟨protocol, interface⟩) = .ok text → Spelled interface.name text

theorem handleSpelled (hcoherent : registry.Coherent) (interface : Interface) :
    HandleSpelled registry interface := by
  intro protocol text hplace htext
  obtain ⟨-, rfl⟩ := (runs_interfaceText hcoherent hplace).eq_of_exec_ok ⟨hcoherent, rfl⟩ htext
  exact spelled_handleText interface _ _

theorem render_handleType {place : Place} {name : String} {type : TypeExpr}
    (h : eval registry (handleType place name) = .ok type) :
    ∃ found, eval registry (findInterface place.protocol name) = .ok found
      ∧ type.render = renderQualifier (qualifier place.interface found) ++ found.handleName := by
  rw [handleType, bind_pure_comp, eval, exec_map] at h
  obtain ⟨found, hfound, rfl⟩ := (Except.map_eq_ok_iff _ _ _).mp h
  exact ⟨found, hfound, rfl⟩

theorem dotted_enumType (hcoherent : registry.Coherent) {place : Place}
    (hplace : Registered registry place) {name : String} {type : TypeExpr}
    (h : eval registry (enumType place name) = .ok type) :
    ∃ owner enum, eval registry (findEnum place name) = .ok (owner, enum)
      ∧ dotted type.render =
        (if owner.id = place.interface.id then [] else
          (qualifier place.interface owner).toList ++ [owner.handleName]) ++ [enum.typeName] := by
  rw [enumType, bind_pure_comp, eval, exec_map] at h
  obtain ⟨⟨owner, enum⟩, hfound, rfl⟩ := (Except.map_eq_ok_iff _ _ _).mp h
  obtain ⟨henum, howner⟩ := dot_notMem_of_findEnum hcoherent hplace hfound
  have hid : owner.id = place.interface.id ∨ '.' ∉ owner.fullName.toList :=
    howner.imp_left (congrArg Interface.id)
  exact ⟨owner, enum, hfound, dotted_enumTypeOf henum hid⟩

end Eval

/--
References to handles and to enumerations, in any registry that can be reached. What stands behind
the qualifier, or as a component between dots, is the camel case form of a name. It is the
identifier that the name is declared under exactly if that is not quoted.
-/
theorem reference_eq_declared_iff (actions : List Registry.Action) (place : Place)
    (hplace : Registered (Registry.after actions) place) (name : String) (type : TypeExpr) :
    let registry := Registry.after actions
    (eval registry (handleType place name) = .ok type →
      ∃ found, eval registry (findInterface place.protocol name) = .ok found
        ∧ found.fullName = name
        ∧ type.render =
          renderQualifier (qualifier place.interface found) ++ Zig.camel found.name
        ∧ HandleSpelled registry found)
      ∧ (eval registry (enumType place name) = .ok type →
        ∃ owner enum, eval registry (findEnum place name) = .ok (owner, enum)
          ∧ dotted type.render =
            (if owner.id = place.interface.id then [] else
              (qualifier place.interface owner).toList ++ [Zig.camel owner.name])
              ++ [Zig.camel enum.name]
          ∧ Spelled enum.name (enumText enum)
          ∧ HandleSpelled registry owner) := by
  intro registry
  have hcoherent : registry.Coherent := Registry.coherent_after actions
  constructor
  · intro h
    obtain ⟨found, hfound, hrender⟩ := render_handleType h
    exact ⟨found, hfound, fullName_of_findInterface hcoherent hplace.protocol_mem hfound, hrender,
      handleSpelled hcoherent found⟩
  · intro h
    obtain ⟨owner, enum, hfound, hrender⟩ := dotted_enumType hcoherent hplace h
    exact ⟨owner, enum, hfound, hrender, spelled_enumText enum,
      handleSpelled hcoherent owner⟩

def numberedDocument : Xml.Element :=
  ⟨"protocol", [("name", "numbered")], [
    ⟨"interface", [("name", "foo_1a"), ("version", "1")], [
      ⟨"enum", [("name", "2b")], [⟨"entry", [("name", "x"), ("value", "0")], [], ""⟩], ""⟩], ""⟩,
    ⟨"interface", [("name", "foo_b"), ("version", "1")], [], ""⟩], ""⟩

def numberedRegistry : Registry :=
  Registry.after [.add numberedDocument]

def numberedOwner : Place :=
  (unit numberedRegistry "foo").getD 0 default

def plainPlace : Place :=
  (unit numberedRegistry "foo").getD 1 default

theorem registered_numbered :
    Registered numberedRegistry numberedOwner ∧ Registered numberedRegistry plainPlace := by
  have hmem : numberedOwner ∈ unit numberedRegistry "foo"
      ∧ plainPlace ∈ unit numberedRegistry "foo" := by
    decide +kernel
  exact ⟨registered_of_mem_unit hmem.1, registered_of_mem_unit hmem.2⟩

theorem handleType_numbered :
    eval numberedRegistry (handleType plainPlace "foo_1a") = .ok (.handle none "1a")
      ∧ eval numberedRegistry (findInterface plainPlace.protocol "foo_1a") =
        .ok numberedOwner.interface
      ∧ numberedOwner.interface.name = "1a" := by
  decide +kernel

theorem enumType_numbered :
    eval numberedRegistry (enumType plainPlace "foo_1a.2b") =
      .ok (.enum (some (none, "1a")) "2b") := by
  decide +kernel

theorem reference_of_numbered :
    Registered numberedRegistry plainPlace
      ∧ eval numberedRegistry (handleType plainPlace "foo_1a") = .ok (.handle none "1a")
      ∧ eval numberedRegistry (enumType plainPlace "foo_1a.2b") =
        .ok (.enum (some (none, "1a")) "2b")
      ∧ HandleSpelled numberedRegistry numberedOwner.interface
      ∧ ∃ owner enum, eval numberedRegistry (findEnum plainPlace "foo_1a.2b") = .ok (owner, enum)
        ∧ Spelled enum.name (enumText enum) := by
  have hplace := registered_numbered.2
  obtain ⟨hhandle, hfound, -⟩ := handleType_numbered
  have henum := enumType_numbered
  obtain ⟨found, hfind, -, -, hspelled⟩ :=
    (reference_eq_declared_iff _ plainPlace hplace "foo_1a" _).1 hhandle
  obtain ⟨owner, enum, hfindEnum, -, henumSpelled, -⟩ :=
    (reference_eq_declared_iff _ plainPlace hplace "foo_1a.2b" _).2 henum
  have howner : numberedOwner.interface = found := Except.ok.inj (hfound.symm.trans hfind)
  exact ⟨hplace, hhandle, henum, howner ▸ hspelled, owner, enum, hfindEnum, henumSpelled⟩

theorem exists_reference_ne_declared :
    ∃ type text, eval numberedRegistry (handleType plainPlace "foo_1a") = .ok type
      ∧ eval numberedRegistry (findInterface plainPlace.protocol "foo_1a") =
        .ok numberedOwner.interface
      ∧ eval numberedRegistry (interfaceText numberedOwner) = .ok text
      ∧ type.render = "1a" ∧ declared? text = some "@\"1a\"" := by
  obtain ⟨hhandle, hfound, hname⟩ := handleType_numbered
  have htext : (eval numberedRegistry (interfaceText numberedOwner)).toOption.isSome = true := by
    decide +kernel
  obtain ⟨text, htext⟩ := Option.isSome_iff_exists.mp htext
  rw [Except.toOption_eq_some_iff] at htext
  have hdeclared := (handleSpelled (Registry.coherent_after _) numberedOwner.interface _ text
    registered_numbered.1 htext).declared
  have hident : Zig.ident (Zig.camel "1a") = "@\"1a\"" := by
    decide +kernel
  rw [hname, hident] at hdeclared
  exact ⟨_, text, hhandle, hfound, htext, rfl, hdeclared⟩

end Bindings
end Waybind
