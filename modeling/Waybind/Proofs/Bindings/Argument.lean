import Waybind.Bindings.Argument
import Waybind.Proofs.Registry.Lookup

/-!
This module contains how the types of arguments are looked up: when that fails, and that a reference
to another family is noted exactly if the type is qualified with it. Conversions and what requests
evaluate to then need nothing that has not been found for a type.
-/

namespace Waybind

namespace Zig

def TypeExpr.qualifiers : TypeExpr → List String
  | .handle qualifier _ => qualifier.toList
  | .enum (some (qualifier, _)) _ => qualifier.toList
  | .optional type => type.qualifiers
  | .slice element => element.qualifiers
  | _ => []

theorem TypeExpr.exists_render_of_mem_qualifiers {type : TypeExpr} {family : String}
    (h : family ∈ type.qualifiers) :
    ∃ before after, type.render = before ++ family ++ "." ++ after := by
  induction type with
  | i32 | u32 | u8 | fixed | string | fileDescriptor => cases h
  | handle qualifier name =>
    rw [qualifiers, Option.mem_toList] at h
    subst h
    exact ⟨"", name, by simp [render, renderQualifier]⟩
  | enum owner name =>
    cases owner with
    | none => cases h
    | some owner =>
      rw [qualifiers, Option.mem_toList] at h
      refine ⟨"", owner.2 ++ "." ++ name, ?_⟩
      simp [render, renderQualifier, h, String.append_assoc]
  | optional type ih =>
    obtain ⟨before, after, hrender⟩ := ih h
    exact ⟨"?" ++ before, after, by simp [render, hrender, String.append_assoc]⟩
  | slice element ih =>
    obtain ⟨before, after, hrender⟩ := ih h
    exact ⟨"[]" ++ before, after, by simp [render, hrender, String.append_assoc]⟩

def Conversion.types : Conversion → List TypeExpr
  | .slice element => [element]
  | .orNull conversion => conversion.types
  | _ => []

end Zig

namespace Bindings

open Lookup
open Zig (TypeExpr Conversion)

def ReturnType.types : ReturnType → List TypeExpr
  | .created type => [type]
  | _ => []

instance : Inhabited ReturnType :=
  ⟨.void⟩

section Definitions

variable (reference : Registry) (place : Place)

/--
Why the reference of an argument refers to nothing. Integers refer to enumerations, and objects and
arrays to interfaces.
-/
def unresolved? (arg : Arg) : Option Lookup.Error :=
  match arg.type with
  | .int | .uint => arg.enum.bind fun name => fault? reference (findEnum place name)
  | .newId | .object | .array =>
    arg.interface.bind fun name => fault? reference (findInterface place.protocol name)
  | .fixed | .string | .fd => none

def typeOf (arg : Arg) : TypeExpr :=
  value reference (argType place arg .typed)

def conversionOf (arg : Arg) : Conversion :=
  value reference (conversion place arg)

def resultOf (request : Request) : ReturnType :=
  value reference (returnType place request)

def usesOf (type : TypeExpr) : List (Nat × String) :=
  type.qualifiers.map (place.protocol.id, ·)

end Definitions

variable {reference : Registry} {place : Place}

theorem fault?_argType (arg : Arg) :
    fault? reference (argType place arg .typed) = unresolved? reference place arg := by
  unfold argType unresolved? integerType enumType handleType
  cases arg.type with
  | int | uint =>
    cases arg.enum with
    | none => rfl
    | some name => simp only [bind_pure_comp, fault?_map, Option.bind_some]
  | newId | object | array =>
    cases arg.interface with
    | none => rfl
    | some name => simp only [bind_pure_comp, fault?_map, Option.bind_some]
  | fixed | string | fd => rfl

theorem fault?_handleType (name : String) :
    fault? reference (handleType place name) =
      fault? reference (findInterface place.protocol name) := by
  rw [handleType, bind_pure_comp, fault?_map]

theorem argType_of_newId {arg : Arg} {name : String} (htype : arg.type = .newId)
    (hinterface : arg.interface = some name) :
    argType place arg .typed = handleType place name := by
  simp only [argType, htype, hinterface]

theorem types_idConversion (arg : Arg) : (idConversion arg).types = [] := by
  unfold idConversion
  split
  · rfl
  · rfl

theorem qualifiers_orNull (nullable : Bool) (type : TypeExpr) :
    (orNull nullable type).qualifiers = type.qualifiers := by
  cases nullable with
  | false => rfl
  | true => rfl

section Types

variable (hcoherent : reference.Coherent) (hplace : Registered reference place)

include hcoherent hplace

theorem interface_family_eq : place.interface.family = place.protocol.family :=
  (hplace.built hcoherent).family_eq hplace.interface_mem

theorem map_qualifier (owner : Interface) :
    (qualifier place.interface owner).toList.map (place.protocol.id, ·) =
      useOf place.protocol owner.family := by
  unfold qualifier useOf
  rw [interface_family_eq hcoherent hplace]
  split
  · rfl
  · rfl

theorem family_eq_of_id_eq {owner : Interface} (howner : Declared reference owner)
    (hid : owner.id = place.interface.id) : owner.family = place.protocol.family := by
  obtain ⟨protocol, hprotocol, hmem⟩ := howner
  have hbuilt := hcoherent.built_of_mem hprotocol
  obtain ⟨index, hindex⟩ := (Table.mem_values_iff _ owner).mp hmem
  obtain ⟨index', hindex'⟩ := (Table.mem_values_iff _ place.interface).mp hplace.interface_mem
  rw [(hbuilt.interface index owner hindex).1.id_eq,
    ((hplace.built hcoherent).interface index' place.interface hindex').1.id_eq,
    InterfaceId.mk.injEq] at hid
  -- the ids begin with the numbers of the protocols, so that both interfaces are in one
  have hsame := hcoherent.protocol?_id hprotocol
  rw [hid.1, hcoherent.protocol?_id hplace.protocol_mem, Option.some.injEq] at hsame
  rw [hsame]
  exact hbuilt.family_eq hmem

theorem usesOf_enumTypeOf {owner : Interface} (howner : Declared reference owner)
    (enum : Enumeration) :
    usesOf place (enumTypeOf place.interface owner enum) = useOf place.protocol owner.family := by
  unfold usesOf enumTypeOf
  split
  · next hid =>
    rw [useOf, if_pos (family_eq_of_id_eq hcoherent hplace howner hid)]
    rfl
  · exact map_qualifier hcoherent hplace owner

theorem finds_handleType (name : String) :
    Finds reference (handleType place name) (fun _ => True) (usesOf place) := by
  rw [handleType, bind_pure_comp]
  apply (finds_findInterface hcoherent hplace.protocol_mem name).map
  intro interface _
  exact ⟨trivial, (map_qualifier hcoherent hplace interface).symm⟩

theorem finds_enumType (name : String) :
    Finds reference (enumType place name) (fun _ => True) (usesOf place) := by
  rw [enumType, bind_pure_comp]
  apply (finds_findEnum hcoherent hplace name).map
  intro found hfound
  exact ⟨trivial, (usesOf_enumTypeOf hcoherent hplace hfound found.2).symm⟩

theorem finds_argType (arg : Arg) :
    Finds reference (argType place arg .typed) (fun _ => True) (usesOf place) := by
  unfold argType integerType
  cases arg.type with
  | int | uint =>
    cases arg.enum with
    | none => exact .of_yields trivial (.pure _) rfl
    | some name => exact finds_enumType hcoherent hplace name
  | fixed | fd => exact .of_yields trivial (.pure _) rfl
  | string =>
    refine .of_yields trivial (.pure _) ?_
    rw [usesOf, qualifiers_orNull]
    rfl
  | newId =>
    cases arg.interface with
    | none => exact .of_yields trivial (.pure _) rfl
    | some name => exact finds_handleType hcoherent hplace name
  | object =>
    cases arg.interface with
    | none =>
      refine .of_yields trivial (.pure _) ?_
      rw [usesOf, qualifiers_orNull]
      rfl
    | some name =>
      apply (finds_handleType hcoherent hplace name).map
      intro type _
      exact ⟨trivial, by rw [usesOf, usesOf, qualifiers_orNull]⟩
  | array =>
    cases arg.interface with
    | none => exact .of_yields trivial (.pure _) rfl
    | some name =>
      apply (finds_handleType hcoherent hplace name).map
      intro type _
      exact ⟨trivial, rfl⟩

theorem runs_argType (arg : Arg) :
    Runs reference (argType place arg .typed) (unresolved? reference place arg)
      (typeOf reference place arg) (usesOf place (typeOf reference place arg)) := by
  rw [← fault?_argType]
  exact (finds_argType hcoherent hplace arg).runs hcoherent

theorem exists_within_integerConversion {arg : Arg} (plain : TypeExpr)
    (h : (arg.enum.bind fun name => fault? reference (findEnum place name)) = none) :
    ∃ converted, Within reference (integerConversion place arg) converted
        (usesOf place (value reference (integerType place arg plain)))
      ∧ converted.types = [] := by
  unfold integerConversion integerType
  cases henum : arg.enum with
  | none => exact ⟨_, .pure _, rfl⟩
  | some name =>
    rw [henum] at h
    obtain ⟨found, hfound, hfind⟩ := (finds_findEnum hcoherent hplace name).yields hcoherent h
    simp only [enumType, bind_pure_comp, (hfind.map _).value_eq hcoherent]
    refine ⟨_, ⟨_, hfind.map _, ?_⟩, ?_⟩
    · rw [usesOf_enumTypeOf hcoherent hplace hfound]
      exact List.Subset.refl _
    · cases found.2.bitfield with
      | false => rfl
      | true => rfl

theorem within_conversion {arg : Arg} (h : unresolved? reference place arg = none) :
    Within reference (conversion place arg) (conversionOf reference place arg)
        (usesOf place (typeOf reference place arg))
      ∧ (conversionOf reference place arg).types.flatMap (·.qualifiers) ⊆
        (typeOf reference place arg).qualifiers := by
  refine within_value (P := fun converted : Conversion =>
    converted.types.flatMap (·.qualifiers) ⊆ (typeOf reference place arg).qualifiers) hcoherent ?_
  revert h
  unfold unresolved? typeOf conversion argType
  cases arg.type with
  | int | uint =>
    intro h
    obtain ⟨converted, hwithin, htypes⟩ := exists_within_integerConversion hcoherent hplace _ h
    refine ⟨converted, hwithin, ?_⟩
    rw [htypes]
    exact List.nil_subset _
  | fixed | string | fd =>
    intro _
    exact ⟨_, .pure _, List.nil_subset _⟩
  | newId =>
    intro _
    refine ⟨_, .pure _, ?_⟩
    rw [types_idConversion]
    exact List.nil_subset _
  | object =>
    intro _
    refine ⟨_, .pure _, ?_⟩
    cases arg.allowNull with
    | false =>
      simp only [Bool.false_eq_true, ↓reduceIte, types_idConversion]
      exact List.nil_subset _
    | true =>
      simp only [↓reduceIte, Conversion.types, types_idConversion]
      exact List.nil_subset _
  | array =>
    intro h
    cases hinterface : arg.interface with
    | none => exact ⟨_, .pure _, List.nil_subset _⟩
    | some name =>
      rw [hinterface] at h
      have hfault := (fault?_handleType name).trans h
      obtain ⟨type, -, hfind⟩ := (finds_handleType hcoherent hplace name).yields hcoherent hfault
      simp only [(hfind.map _).value_eq hcoherent]
      refine ⟨_, ⟨_, hfind.map _, List.Subset.refl _⟩, ?_⟩
      simp [Conversion.types, TypeExpr.qualifiers]

theorem within_returnType {request : Request}
    (h : ∀ arg ∈ request.args, unresolved? reference place arg = none) :
    Within reference (returnType place request) (resultOf reference place request)
        (request.args.flatMap fun arg => usesOf place (typeOf reference place arg))
      ∧ (resultOf reference place request).types.flatMap (·.qualifiers) ⊆
        request.args.flatMap fun arg => (typeOf reference place arg).qualifiers := by
  refine within_value (P := fun result : ReturnType => result.types.flatMap (·.qualifiers) ⊆
    request.args.flatMap fun arg => (typeOf reference place arg).qualifiers) hcoherent ?_
  unfold returnType
  split
  · next name _ hcreated =>
    -- the object that is created is the one of an argument
    obtain ⟨arg, harg, hinterface⟩ := List.exists_of_findSome?_eq_some hcreated
    obtain ⟨harg, htype⟩ := List.mem_filter.mp harg
    rw [beq_iff_eq] at htype
    have hargType : argType place arg .typed = handleType place name :=
      argType_of_newId htype hinterface
    have hfault := h arg harg
    rw [← fault?_argType, hargType] at hfault
    obtain ⟨type, -, hfind⟩ := (finds_handleType hcoherent hplace name).yields hcoherent hfault
    have htypeOf : typeOf reference place arg = type := by
      rw [typeOf, hargType, hfind.value_eq hcoherent]
    refine ⟨_, ⟨_, hfind.map _, ?_⟩, ?_⟩
    · intro use huse
      rw [← htypeOf] at huse
      exact List.mem_flatMap.mpr ⟨arg, harg, huse⟩
    · intro family hfamily
      simp only [ReturnType.types, List.flatMap_singleton, ← htypeOf] at hfamily
      exact List.mem_flatMap.mpr ⟨arg, harg, hfamily⟩
  · exact ⟨_, .pure _, List.nil_subset _⟩
  · exact ⟨_, .pure _, List.nil_subset _⟩

end Types
end Bindings
end Waybind
