import Waybind.Proofs.Bindings.Argument
import Waybind.Proofs.Bindings.Registration
import Waybind.Proofs.Registry.Resolution

/-!
This module contains how the conversion of a raw argument goes with its type. Both are told from what
the argument refers to, and which expression is written can be read off what the type names. Once the
type has been found, the expression is found as well, and leaves nothing behind.
-/

namespace Waybind

def Arg.withNull (arg : Arg) (nullable : Bool) : Arg :=
  { arg with allowNull := nullable }

namespace Zig.Conversion

section Render

variable {raw : String} {rest : List Char} (hraw : raw.toList = 'a' :: rest)
  (conversion : Conversion)

include hraw

theorem render_eq_bitCast_iff :
    conversion.render raw = "@bitCast(" ++ raw ++ ")" ↔ conversion = .bitCast := by
  rw [← String.toList_inj]
  cases conversion <;> simp [render, hraw]

theorem render_eq_enumFromInt_iff :
    conversion.render raw = "@enumFromInt(" ++ raw ++ ")" ↔ conversion = .enumFromInt := by
  rw [← String.toList_inj]
  cases conversion <;> simp [render, hraw]

theorem render_eq_orNull_iff (value : String) :
    conversion.render raw = "if (" ++ raw ++ " == 0) null else " ++ value ↔
      ∃ inner, conversion = .orNull inner ∧ inner.render raw = value := by
  rw [← String.toList_inj]
  cases conversion <;> simp [render, hraw, String.toList_inj]

theorem render_eq_slice_iff (element : String) :
    conversion.render raw = raw ++ ".slice(" ++ element ++ ")" ↔
      ∃ type, conversion = .slice type ∧ type.render = element := by
  rw [← String.toList_inj]
  cases conversion <;> simp [render, hraw, String.toList_inj]

theorem render_eq_raw_iff : conversion.render raw = raw ↔ conversion = .keep := by
  rw [← String.toList_inj]
  cases conversion <;> simp [render, hraw]

end Render

end Zig.Conversion

namespace Bindings

open Lookup
open Zig (TypeExpr Conversion)

section Definitions

variable (registry : Registry) (place : Place) (arg : Arg)

def NamesEnum (type : TypeExpr) (enum : Enumeration) : Prop :=
  (arg.type = .int ∨ arg.type = .uint) ∧ ∃ name owner, arg.enum = some name
    ∧ RefersToEnum registry.protocols place name owner enum
    ∧ type = enumTypeOf place.interface owner enum

def NamesHandle (type : TypeExpr) : Prop :=
  ∃ name interface, arg.interface = some name
    ∧ RefersTo registry.protocols place.protocol name interface
    ∧ type = .handle (qualifier place.interface interface) interface.handleName

inductive Decoding : TypeExpr → Conversion → Prop where
  | enum (type : TypeExpr) (enum : Enumeration) (hnames : NamesEnum registry place arg type enum) :
      Decoding type (if enum.bitfield then .bitCast else .enumFromInt)
  | handle (type : TypeExpr) (hid : arg.type = .newId ∨ arg.type = .object)
      (hnames : NamesHandle registry place arg type) : Decoding type .enumFromInt
  | nullable (type : TypeExpr) (hobject : arg.type = .object) (hnull : arg.allowNull = true) :
      Decoding (.optional type) (.orNull (idConversion arg))
  | array (element : TypeExpr) (harray : arg.type = .array) :
      Decoding (.slice element) (.slice element)
  | kept (type : TypeExpr) (henum : arg.type = .int ∨ arg.type = .uint → arg.enum = none)
      (hid : arg.type = .newId ∨ arg.type = .object → arg.interface = none)
      (hobject : arg.type = .object → arg.allowNull = false) (harray : arg.type ≠ .array) :
      Decoding type .keep

/--
The expression for an argument suits its type, and which one it is can be told from what the type
names. The type and the expression without the value null stand beside them.
-/
structure Suits (raw : String) (type plain : TypeExpr) (expr plainExpr : String) : Prop where
  bitCast_iff : expr = "@bitCast(" ++ raw ++ ")" ↔
    ∃ enum, NamesEnum registry place arg type enum ∧ enum.bitfield = true
  enumFromInt_iff : expr = "@enumFromInt(" ++ raw ++ ")" ↔
    (∃ enum, NamesEnum registry place arg type enum ∧ enum.bitfield = false)
      ∨ (arg.type = .newId ∨ arg.type = .object) ∧ NamesHandle registry place arg type
  orNull_iff : ∀ value, expr = "if (" ++ raw ++ " == 0) null else " ++ value ↔
    arg.type = .object ∧ type.render = "?" ++ plain.render ∧ value = plainExpr
  slice_iff : ∀ element, expr = raw ++ ".slice(" ++ element ++ ")" ↔
    arg.type = .array ∧ type.render = "[]" ++ element
  raw_iff : expr = raw ↔ (∀ enum, ¬ NamesEnum registry place arg type enum)
    ∧ ¬ ((arg.type = .newId ∨ arg.type = .object) ∧ NamesHandle registry place arg type)
    ∧ ¬ (arg.type = .object ∧ type.render = "?" ++ plain.render)
    ∧ arg.type ≠ .array

end Definitions

theorem argType_withNull (place : Place) {arg : Arg}
    (h : arg.type = .object ∨ arg.type = .string) (nullable : Bool) :
    argType place (arg.withNull nullable) .typed =
      orNull nullable <$> argType place (arg.withNull false) .typed := by
  unfold argType
  rcases h with hwire | hwire
  · simp only [Arg.withNull, hwire]
    cases arg.interface with
    | none => rfl
    | some name =>
      simp only [Functor.map_map]
      rfl
  · simp only [Arg.withNull, hwire]
    rfl

theorem argType_eq_orNull (place : Place) {arg : Arg}
    (h : arg.type = .object ∨ arg.type = .string) :
    argType place arg .typed = orNull arg.allowNull <$> argType place (arg.withNull false) .typed :=
  argType_withNull place h arg.allowNull

theorem render_orNull_eq_iff (nullable : Bool) (type : TypeExpr) :
    (orNull nullable type).render = "?" ++ type.render ↔ nullable = true := by
  cases nullable with
  | false =>
    rw [← String.toList_inj]
    simp [orNull]
  | true => exact ⟨fun _ => rfl, fun _ => rfl⟩

section Types

variable {registry : Registry} (hcoherent : registry.Coherent) {place : Place}
  (hplace : Registered registry place)

include hcoherent hplace

theorem eval_handleType_eq_ok_iff (name : String) (type : TypeExpr) :
    eval registry (handleType place name) = .ok type ↔
      ∃ interface, RefersTo registry.protocols place.protocol name interface
        ∧ type = .handle (qualifier place.interface interface) interface.handleName := by
  rw [handleType, bind_pure_comp, eval_map]
  refine (Except.map_eq_ok_iff _ _ _).trans (exists_congr fun interface => ?_)
  rw [eval_findInterface_eq_ok_iff hcoherent hplace.protocol_mem, eq_comm (a := type)]

theorem eval_enumType_eq_ok_iff (name : String) (type : TypeExpr) :
    eval registry (enumType place name) = .ok type ↔
      ∃ owner enum, RefersToEnum registry.protocols place name owner enum
        ∧ type = enumTypeOf place.interface owner enum := by
  rw [enumType, bind_pure_comp, eval_map]
  refine (Except.map_eq_ok_iff _ _ _).trans (Prod.exists.trans ?_)
  refine exists₂_congr fun owner enum => ?_
  rw [eval_findEnum_eq_ok_iff hcoherent hplace, eq_comm (a := type)]

theorem eval_integerConversion {arg : Arg} {name : String} {owner : Interface} {enum : Enumeration}
    (hname : arg.enum = some name)
    (hrefers : RefersToEnum registry.protocols place name owner enum) :
    eval registry (integerConversion place arg) =
      .ok (if enum.bitfield then .bitCast else .enumFromInt) := by
  rw [← eval_findEnum_eq_ok_iff hcoherent hplace] at hrefers
  simp only [integerConversion, hname, bind_pure_comp, eval_map, hrefers]
  rfl

theorem decoding_integer {arg : Arg} (plain : TypeExpr) {type : TypeExpr} {converted : Conversion}
    (hwire : arg.type = .int ∨ arg.type = .uint)
    (htype : eval registry (integerType place arg plain) = .ok type)
    (hconverted : eval registry (integerConversion place arg) = .ok converted) :
    Decoding registry place arg type converted := by
  cases hname : arg.enum with
  | none =>
    simp only [integerConversion, hname] at hconverted
    cases hconverted
    apply Decoding.kept
    · exact fun _ => hname
    all_goals rcases hwire with hwire | hwire <;> simp [hwire]
  | some name =>
    simp only [integerType, hname, eval_enumType_eq_ok_iff hcoherent hplace] at htype
    obtain ⟨owner, enum, hrefers, htype⟩ := htype
    rw [eval_integerConversion hcoherent hplace hname hrefers] at hconverted
    cases hconverted
    exact .enum type enum ⟨hwire, name, owner, hname, hrefers, htype⟩

theorem decoding_id {arg : Arg} {type : TypeExpr}
    (hwire : arg.type = .newId ∨ arg.type = .object ∧ arg.allowNull = false)
    (htype : eval registry (argType place arg .typed) = .ok type) :
    Decoding registry place arg type (idConversion arg) := by
  cases hname : arg.interface with
  | none =>
    simp only [idConversion, hname]
    apply Decoding.kept
    · rcases hwire with hwire | ⟨hwire, -⟩ <;> simp [hwire]
    · exact fun _ => hname
    · rcases hwire with hwire | ⟨-, hnull⟩
      · simp [hwire]
      · exact fun _ => hnull
    · rcases hwire with hwire | ⟨hwire, -⟩ <;> simp [hwire]
  | some name =>
    -- the type of an object that is there is the handle itself, like that of a new one
    have hhandle : argType place arg .typed = handleType place name := by
      rcases hwire with hwire | ⟨hwire, hnull⟩
      · exact argType_of_newId hwire hname
      · simp only [argType, hwire, hname, hnull]
        exact id_map _
    rw [hhandle, eval_handleType_eq_ok_iff hcoherent hplace] at htype
    obtain ⟨interface, hrefers⟩ := htype
    simp only [idConversion, hname]
    exact .handle type (hwire.imp_right And.left) ⟨name, interface, hname, hrefers⟩

theorem decoding_of_eval {arg : Arg} {type : TypeExpr} {converted : Conversion}
    (htype : eval registry (argType place arg .typed) = .ok type)
    (hconverted : eval registry (conversion place arg) = .ok converted) :
    Decoding registry place arg type converted := by
  cases hwire : arg.type with
  | int =>
    simp only [argType, conversion, hwire] at htype hconverted
    exact decoding_integer hcoherent hplace .i32 (.inl hwire) htype hconverted
  | uint =>
    simp only [argType, conversion, hwire] at htype hconverted
    exact decoding_integer hcoherent hplace .u32 (.inr hwire) htype hconverted
  | fixed | string | fd =>
    simp only [conversion, hwire] at hconverted
    cases hconverted
    apply Decoding.kept <;> simp [hwire]
  | newId =>
    simp only [conversion, hwire] at hconverted
    cases hconverted
    exact decoding_id hcoherent hplace (.inl hwire) htype
  | object =>
    simp only [conversion, hwire] at hconverted
    cases hnull : arg.allowNull with
    | false =>
      simp only [hnull] at hconverted
      cases hconverted
      exact decoding_id hcoherent hplace (.inr ⟨hwire, hnull⟩) htype
    | true =>
      simp only [hnull] at hconverted
      cases hconverted
      rw [argType_eq_orNull place (.inl hwire), hnull, eval_map] at htype
      obtain ⟨plain, -, rfl⟩ := (Except.map_eq_ok_iff _ _ _).mp htype
      exact .nullable plain hwire hnull
  | array =>
    -- both ask for the same element
    simp only [argType, conversion, hwire] at htype hconverted
    cases hname : arg.interface with
    | none =>
      simp only [hname] at htype hconverted
      cases htype
      cases hconverted
      exact .array .u8 hwire
    | some name =>
      simp only [hname, eval_map] at htype hconverted
      obtain ⟨element, helement, rfl⟩ := (Except.map_eq_ok_iff _ _ _).mp htype
      rw [helement] at hconverted
      cases hconverted
      exact .array element hwire

section Agreement

variable {arg : Arg} {type : TypeExpr} {converted : Conversion}
  (htype : eval registry (argType place arg .typed) = .ok type)
  (hconverted : eval registry (conversion place arg) = .ok converted)

include hconverted in
theorem NamesEnum.conversion_eq {enum : Enumeration}
    (h : NamesEnum registry place arg type enum) :
    converted = if enum.bitfield then .bitCast else .enumFromInt := by
  obtain ⟨hwire, name, owner, hname, hrefers, -⟩ := h
  have hinteger : conversion place arg = integerConversion place arg := by
    rcases hwire with hwire | hwire
    · simp only [conversion, hwire]
    · simp only [conversion, hwire]
  rw [hinteger, eval_integerConversion hcoherent hplace hname hrefers, Except.ok.injEq] at hconverted
  exact hconverted.symm

include htype hconverted

omit hcoherent hplace in
theorem NamesHandle.conversion_eq (hwire : arg.type = .newId ∨ arg.type = .object)
    (h : NamesHandle registry place arg type) : converted = .enumFromInt := by
  obtain ⟨name, interface, hname, -, rfl⟩ := h
  have hid : idConversion arg = .enumFromInt := by simp only [idConversion, hname]
  rcases hwire with hwire | hwire
  · simp only [conversion, hwire, hid] at hconverted
    cases hconverted
    rfl
  · cases hnull : arg.allowNull with
    | false =>
      simp only [conversion, hwire, hid, hnull] at hconverted
      cases hconverted
      rfl
    | true =>
      -- such a type is optional, and hence none that names a handle
      rw [argType_eq_orNull place (.inl hwire), hnull, eval_map] at htype
      obtain ⟨plain, -, hoptional⟩ := (Except.map_eq_ok_iff _ _ _).mp htype
      cases hoptional

theorem eq_bitCast_iff :
    converted = .bitCast ↔
      ∃ enum, NamesEnum registry place arg type enum ∧ enum.bitfield = true := by
  constructor
  · intro hbitCast
    cases decoding_of_eval hcoherent hplace htype hconverted with
    | enum _ enum hnames =>
      refine ⟨enum, hnames, ?_⟩
      by_contra hbitfield
      rw [if_neg hbitfield] at hbitCast
      cases hbitCast
    | handle | nullable | array | kept => cases hbitCast
  · rintro ⟨enum, hnames, hbitfield⟩
    rw [hnames.conversion_eq hcoherent hplace hconverted, if_pos hbitfield]

theorem eq_enumFromInt_iff :
    converted = .enumFromInt ↔
      (∃ enum, NamesEnum registry place arg type enum ∧ enum.bitfield = false)
        ∨ (arg.type = .newId ∨ arg.type = .object) ∧ NamesHandle registry place arg type := by
  constructor
  · intro hcast
    cases decoding_of_eval hcoherent hplace htype hconverted with
    | enum _ enum hnames =>
      refine .inl ⟨enum, hnames, ?_⟩
      by_contra hbitfield
      rw [if_pos (eq_true_of_ne_false hbitfield)] at hcast
      cases hcast
    | handle _ hwire hnames => exact .inr ⟨hwire, hnames⟩
    | nullable | array | kept => cases hcast
  · rintro (⟨enum, hnames, hbitfield⟩ | ⟨hwire, hnames⟩)
    · rw [hnames.conversion_eq hcoherent hplace hconverted, hbitfield]
      rfl
    · exact hnames.conversion_eq htype hconverted hwire

theorem slice_of_array (hwire : arg.type = .array) :
    ∃ element, type = .slice element ∧ converted = .slice element := by
  cases decoding_of_eval hcoherent hplace htype hconverted with
  | enum _ _ hnames => simp [hwire, NamesEnum] at hnames
  | handle _ hid => simp [hwire] at hid
  | nullable _ hobject => simp [hwire] at hobject
  | array element => exact ⟨element, rfl, rfl⟩
  | kept _ _ _ _ harray => exact absurd hwire harray

theorem array_of_slice {element : TypeExpr} (h : converted = .slice element) :
    arg.type = .array := by
  cases decoding_of_eval hcoherent hplace htype hconverted with
  | enum => split at h <;> cases h
  | handle | nullable | kept => cases h
  | array _ hwire => exact hwire

theorem object_of_orNull {inner : Conversion} (h : converted = .orNull inner) :
    arg.type = .object ∧ arg.allowNull = true := by
  cases decoding_of_eval hcoherent hplace htype hconverted with
  | enum => split at h <;> cases h
  | handle | array | kept => cases h
  | nullable _ hobject hnull => exact ⟨hobject, hnull⟩

end Agreement

section Expressions

variable {arg : Arg} {type plain : TypeExpr} {converted converted' : Conversion}
  (htype : eval registry (argType place arg .typed) = .ok type)
  (hplain : eval registry (argType place (arg.withNull false) .typed) = .ok plain)
  (hconverted : eval registry (conversion place arg) = .ok converted)
  (hconverted' : eval registry (conversion place (arg.withNull false)) = .ok converted')

omit hcoherent hplace in
include htype hplain in
theorem type_eq_orNull (hwire : arg.type = .object ∨ arg.type = .string) :
    type = orNull arg.allowNull plain := by
  rw [argType_eq_orNull place hwire, eval_map, hplain] at htype
  cases htype
  rfl

omit hcoherent hplace in
include hconverted hconverted' in
theorem converted_eq_of_object (hwire : arg.type = .object) :
    converted = if arg.allowNull then .orNull converted' else converted' := by
  simp only [conversion, Arg.withNull, hwire] at hconverted hconverted'
  cases hconverted
  cases hconverted'
  rfl

include htype hplain hconverted hconverted'

theorem exists_orNull_iff (raw value : String) :
    (∃ inner, converted = .orNull inner ∧ inner.render raw = value) ↔
      arg.type = .object ∧ type.render = "?" ++ plain.render ∧ value = converted'.render raw := by
  constructor
  · rintro ⟨inner, hinner, rfl⟩
    obtain ⟨hwire, hnull⟩ := object_of_orNull hcoherent hplace htype hconverted hinner
    rw [type_eq_orNull htype hplain (.inl hwire), hnull]
    rw [converted_eq_of_object hconverted hconverted' hwire, hnull] at hinner
    cases hinner
    exact ⟨hwire, rfl, rfl⟩
  · rintro ⟨hwire, hrender, rfl⟩
    rw [type_eq_orNull htype hplain (.inl hwire), render_orNull_eq_iff] at hrender
    refine ⟨converted', ?_, rfl⟩
    rw [converted_eq_of_object hconverted hconverted' hwire, if_pos hrender]

omit hplain hconverted' in
theorem exists_slice_iff (element : String) :
    (∃ inner, converted = .slice inner ∧ inner.render = element) ↔
      arg.type = .array ∧ type.render = "[]" ++ element := by
  constructor
  · rintro ⟨inner, hinner, rfl⟩
    have hwire := array_of_slice hcoherent hplace htype hconverted hinner
    obtain ⟨inner', rfl, hinner'⟩ := slice_of_array hcoherent hplace htype hconverted hwire
    rw [hinner, Conversion.slice.injEq] at hinner'
    rw [hinner']
    exact ⟨hwire, rfl⟩
  · rintro ⟨hwire, hrender⟩
    obtain ⟨inner, rfl, hinner⟩ := slice_of_array hcoherent hplace htype hconverted hwire
    refine ⟨inner, hinner, ?_⟩
    rwa [TypeExpr.render, String.append_right_inj] at hrender

theorem eq_keep_iff :
    converted = .keep ↔ (∀ enum, ¬ NamesEnum registry place arg type enum)
      ∧ ¬ ((arg.type = .newId ∨ arg.type = .object) ∧ NamesHandle registry place arg type)
      ∧ ¬ (arg.type = .object ∧ type.render = "?" ++ plain.render)
      ∧ arg.type ≠ .array := by
  constructor
  · rintro rfl
    refine ⟨?_, ?_, ?_, ?_⟩
    · intro enum hnames
      have hcast := hnames.conversion_eq hcoherent hplace hconverted
      split at hcast <;> cases hcast
    · rintro ⟨hwire, hnames⟩
      cases hnames.conversion_eq htype hconverted hwire
    · rintro ⟨hwire, hrender⟩
      obtain ⟨_, hinner, -⟩ := (exists_orNull_iff hcoherent hplace htype hplain hconverted
        hconverted' "" _).mpr ⟨hwire, hrender, rfl⟩
      cases hinner
    · intro hwire
      obtain ⟨_, -, hinner⟩ := slice_of_array hcoherent hplace htype hconverted hwire
      cases hinner
  · rintro ⟨henum, hhandle, hobject, harray⟩
    cases converted with
    | keep => rfl
    | bitCast =>
      obtain ⟨enum, hnames, -⟩ := (eq_bitCast_iff hcoherent hplace htype hconverted).mp rfl
      exact absurd hnames (henum enum)
    | enumFromInt =>
      rcases (eq_enumFromInt_iff hcoherent hplace htype hconverted).mp rfl with
        ⟨enum, hnames, -⟩ | hnames
      · exact absurd hnames (henum enum)
      · exact absurd hnames hhandle
    | orNull inner =>
      obtain ⟨hwire, hrender, -⟩ := (exists_orNull_iff hcoherent hplace htype hplain hconverted
        hconverted' "" _).mp ⟨inner, rfl, rfl⟩
      exact absurd ⟨hwire, hrender⟩ hobject
    | slice element =>
      exact absurd (array_of_slice hcoherent hplace htype hconverted rfl) harray

theorem suits_render {raw : String} {rest : List Char} (hraw : raw.toList = 'a' :: rest) :
    Suits registry place arg raw type plain (converted.render raw) (converted'.render raw) where
  bitCast_iff := by
    rw [Conversion.render_eq_bitCast_iff hraw]
    exact eq_bitCast_iff hcoherent hplace htype hconverted
  enumFromInt_iff := by
    rw [Conversion.render_eq_enumFromInt_iff hraw]
    exact eq_enumFromInt_iff hcoherent hplace htype hconverted
  orNull_iff := by
    intro value
    rw [Conversion.render_eq_orNull_iff hraw]
    exact exists_orNull_iff hcoherent hplace htype hplain hconverted hconverted' raw value
  slice_iff := by
    intro element
    rw [Conversion.render_eq_slice_iff hraw]
    exact exists_slice_iff hcoherent hplace htype hconverted element
  raw_iff := by
    rw [Conversion.render_eq_raw_iff hraw]
    exact eq_keep_iff hcoherent hplace htype hplain hconverted hconverted'

end Expressions

theorem eval_argType_eq {arg : Arg} (h : unresolved? registry place arg = none) :
    eval registry (argType place arg .typed) = .ok (typeOf registry place arg) := by
  have hruns := runs_argType hcoherent hplace arg
  rw [h] at hruns
  exact Yields.eval_eq hruns hcoherent

theorem eval_conversion_eq {arg : Arg} (h : unresolved? registry place arg = none) :
    eval registry (conversion place arg) = .ok (conversionOf registry place arg) := by
  obtain ⟨⟨_, hyields, -⟩, -⟩ := within_conversion hcoherent hplace h
  exact hyields.eval_eq hcoherent

end Types

theorem decodeExpr_suits_argType (actions : List Registry.Action) (place : Place)
    (hplace : Registered (Registry.after actions) place) (event : Event)
    (hevent : event ∈ place.interface.events.values) (arg : Arg) (harg : arg ∈ event.args)
    (index : Nat) (notices : Array Notice) (type : TypeExpr) (state : State)
    (htype : exec (argType place arg .typed) ⟨Registry.after actions, notices⟩ =
      (.ok type, state)) :
    let registry := Registry.after actions
    let raw := "args[" ++ toString index ++ "]." ++ arg.type.name
    registry.protocol? arg.parent.interface.protocol = some place.protocol
    ∧ registry.interface? arg.parent.interface = some place.interface
    ∧ ∃ expr plain plainExpr,
      (exec (decodeExpr place arg index) state).1 = .ok expr
      ∧ (exec (decodeExpr place arg index) state).2.registry.members = state.registry.members
      ∧ eval registry (argType place (arg.withNull false) .typed) = .ok plain
      ∧ eval registry (decodeExpr place (arg.withNull false) index) = .ok plainExpr
      ∧ Suits registry place arg raw type plain expr plainExpr
      ∧ (arg.type = .object ∨ arg.type = .string →
        ∃ nullable, eval registry (argType place (arg.withNull true) .typed) = .ok nullable
          ∧ nullable.render = "?" ++ plain.render) := by
  intro registry raw
  have hcoherent : registry.Coherent := Registry.coherent_after actions
  have hlike : registry.Like registry := ⟨hcoherent, rfl⟩
  obtain ⟨hprotocol, hinterface, -⟩ :=
    parent_of_arg hcoherent hplace (List.mem_append_left _ (List.mem_map_of_mem hevent)) harg
  have hruns := runs_argType hcoherent hplace arg
  obtain ⟨hresolved, rfl⟩ := hruns.eq_of_exec_ok hlike (congrArg Prod.fst htype)
  rw [hresolved] at hruns
  have hdecode := (within_conversion hcoherent hplace hresolved).1.map (·.render (rawArg arg index))
  have hexec := hdecode.exec_after hruns ⟨registry, notices⟩ hlike
  rw [htype] at hexec
  -- null is nothing that is looked up
  have hresolved' : unresolved? registry place (arg.withNull false) = none := hresolved
  have hplain := eval_argType_eq hcoherent hplace hresolved'
  have hconverted' := eval_conversion_eq hcoherent hplace hresolved'
  have hexpr' : eval registry (decodeExpr place (arg.withNull false) index) =
      .ok ((conversionOf registry place (arg.withNull false)).render raw) := by
    rw [decodeExpr, eval_map, hconverted']
    rfl
  refine ⟨hprotocol, hinterface, _, _, _, hexec.1, hexec.2, hplain, hexpr', ?_, ?_⟩
  · have hraw : ∃ rest, raw.toList = 'a' :: rest := by simp [raw]
    obtain ⟨rest, hraw⟩ := hraw
    exact suits_render hcoherent hplace (eval_argType_eq hcoherent hplace hresolved) hplain
      (eval_conversion_eq hcoherent hplace hresolved) hconverted' hraw
  · intro hwire
    refine ⟨.optional (typeOf registry place (arg.withNull false)), ?_, rfl⟩
    rw [argType_withNull place hwire, eval_map, hplain]
    rfl

def dockActions : List Registry.Action :=
  [seatDocument, outputDocument, dockDocument].map .add

def dock : Place :=
  ((Registry.after dockActions).protocols.flatMap placesOf).getLastD default

theorem decodeExpr_suits_argType_dock :
    ∃ event ∈ dock.interface.events.values, ∃ arg ∈ event.args, ∃ type state expr plain plainExpr,
      exec (argType dock arg .typed) ⟨Registry.after dockActions, #[]⟩ = (.ok type, state)
        ∧ (exec (decodeExpr dock arg 1) state).1 = .ok expr
        ∧ arg.type = .uint ∧ type.render = "wl.Seat.Capability" ∧ expr = "@bitCast(args[1].uint)"
        ∧ Suits (Registry.after dockActions) dock arg "args[1].uint" type plain expr plainExpr := by
  have hplace : Registered (Registry.after dockActions) dock := by
    constructor
    · decide +kernel
    · decide +kernel
  have hfacts : (dock.interface.events.at? 0).bind (fun event => event.args[1]?.map fun arg =>
      let found := exec (argType dock arg .typed) ⟨Registry.after dockActions, #[]⟩
      (arg.type, found.1.toOption.map (·.render),
        (exec (decodeExpr dock arg 1) found.2).1.toOption)) =
      some (.uint, some "wl.Seat.Capability", some "@bitCast(args[1].uint)") := by
    decide +kernel
  obtain ⟨event, hevent, hfacts⟩ := Option.bind_eq_some_iff.mp hfacts
  obtain ⟨arg, harg, hfacts⟩ := Option.map_eq_some_iff.mp hfacts
  simp only [Prod.mk.injEq, Option.map_eq_some_iff, Except.toOption_eq_some_iff] at hfacts
  obtain ⟨hwire, ⟨type, htype, hrender⟩, hdecode⟩ := hfacts
  have hevent := (Table.mem_values_iff _ event).mpr ⟨0, hevent⟩
  have harg := List.mem_of_getElem? harg
  rcases hfound : exec (argType dock arg .typed) ⟨Registry.after dockActions, #[]⟩ with
    ⟨result, state⟩
  rw [hfound] at htype hdecode
  cases htype
  obtain ⟨-, -, expr, plain, plainExpr, hexpr, -, -, -, hsuits, -⟩ :=
    decodeExpr_suits_argType dockActions dock hplace event hevent arg harg 1 #[] type state hfound
  have htext := hexpr.symm.trans hdecode
  rw [Except.ok.injEq] at htext
  rw [hwire] at hsuits
  exact ⟨event, hevent, arg, harg, type, state, expr, plain, plainExpr, hfound, hexpr, hwire,
    hrender, htext, hsuits⟩

end Bindings
end Waybind
