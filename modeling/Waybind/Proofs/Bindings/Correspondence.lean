import Waybind.Proofs.Bindings.Imports
import Waybind.Proofs.Registry.Renumber

/-!
This module contains how the types of arguments at two places correspond, in different registries,
as soon as what is found for names does. Only few things about an interface or an enumeration that
is found matter for a type.
-/

namespace Waybind

/--
The second outcome corresponds to the first: if something is found, then something related to it is,
and for a `strict` correspondence failures are the same.
-/
def Follows {ε α β : Type} (strict : Prop) (R : α → β → Prop) (x : Except ε α)
    (y : Except ε β) : Prop :=
  match x with
  | .ok a => ∃ b, y = .ok b ∧ R a b
  | .error error => strict → y = .error error

namespace Follows

variable {ε α β γ δ : Type} {strict : Prop} {R : α → β → Prop} {x : Except ε α} {y : Except ε β}

theorem of_ok {a : α} {b : β} (h : R a b) : Follows strict R (.ok a : Except ε α) (.ok b) :=
  ⟨b, rfl, h⟩

theorem refl (x : Except ε α) : Follows strict Eq x x := by
  cases x with
  | error error => exact fun _ => rfl
  | ok a => exact of_ok rfl

theorem map {S : γ → δ → Prop} (h : Follows strict R x y) {f : α → γ} {g : β → δ}
    (hmap : ∀ a b, R a b → S (f a) (g b)) : Follows strict S (x.map f) (y.map g) := by
  cases x with
  | error error =>
    intro hstrict
    rw [h hstrict]
    rfl
  | ok a =>
    obtain ⟨b, rfl, hab⟩ := h
    exact of_ok (hmap a b hab)

theorem eq_ok {y : Except ε α} (h : Follows strict Eq x y) {a : α} (hx : x = .ok a) :
    y = .ok a := by
  subst hx
  obtain ⟨b, hy, rfl⟩ := h
  exact hy

theorem eq {y : Except ε α} (h : Follows True Eq x y) : y = x := by
  cases x with
  | error error => exact h trivial
  | ok a => exact h.eq_ok rfl

end Follows

structure Interface.Alike (interface other : Interface) : Prop where
  id_eq : interface.id = other.id
  family_eq : interface.family = other.family
  name_eq : interface.name = other.name

theorem Interface.Alike.refl (interface : Interface) : interface.Alike interface :=
  ⟨rfl, rfl, rfl⟩

structure EnumsAlike (found other : Interface × Enumeration) : Prop where
  owner : found.1.Alike other.1
  name_eq : found.2.name = other.2.name
  bitfield_eq : found.2.bitfield = other.2.bitfield

theorem EnumsAlike.refl (found : Interface × Enumeration) : EnumsAlike found found :=
  ⟨.refl _, rfl, rfl⟩

namespace Bindings

open Lookup

structure Corresponds (strict : Prop) (registry other : Registry) (place place' : Place) :
    Prop where
  interface : place.interface.Alike place'.interface
  findInterface : ∀ name, Follows strict Interface.Alike
    (eval registry (findInterface place.protocol name))
    (eval other (Lookup.findInterface place'.protocol name))
  findEnum : ∀ name, Follows strict EnumsAlike (eval registry (findEnum place name))
    (eval other (Lookup.findEnum place' name))

theorem qualifier_congr {current current' owner owner' : Interface}
    (hcurrent : current.Alike current') (howner : owner.Alike owner') :
    qualifier current owner = qualifier current' owner' := by
  rw [qualifier, qualifier, hcurrent.family_eq, howner.family_eq]

theorem handleName_congr {interface other : Interface} (h : interface.Alike other) :
    interface.handleName = other.handleName := by
  rw [Interface.handleName, Interface.handleName, h.name_eq]

theorem enumTypeOf_congr {current current' : Interface} (hcurrent : current.Alike current')
    {found found' : Interface × Enumeration} (hfound : EnumsAlike found found') :
    enumTypeOf current found.1 found.2 = enumTypeOf current' found'.1 found'.2 := by
  have hname : found.2.typeName = found'.2.typeName := congrArg Zig.camel hfound.name_eq
  rw [enumTypeOf, enumTypeOf, hfound.owner.id_eq, hcurrent.id_eq,
    qualifier_congr hcurrent hfound.owner, handleName_congr hfound.owner, hname]

namespace Corresponds

variable {strict : Prop} {registry other : Registry} {place place' : Place}
  (h : Corresponds strict registry other place place')

include h

theorem handleType (name : String) :
    Follows strict Eq (eval registry (handleType place name))
      (eval other (Bindings.handleType place' name)) := by
  rw [Bindings.handleType, Bindings.handleType, bind_pure_comp, bind_pure_comp, eval_map, eval_map]
  apply (h.findInterface name).map
  intro found found' hfound
  rw [qualifier_congr h.interface hfound, handleName_congr hfound]

theorem enumType (name : String) :
    Follows strict Eq (eval registry (enumType place name))
      (eval other (Bindings.enumType place' name)) := by
  rw [Bindings.enumType, Bindings.enumType, bind_pure_comp, bind_pure_comp, eval_map, eval_map]
  apply (h.findEnum name).map
  intro found found' hfound
  exact enumTypeOf_congr h.interface hfound

theorem argType (arg : Arg) :
    Follows strict Eq (eval registry (argType place arg .typed))
      (eval other (Bindings.argType place' arg .typed)) := by
  unfold Bindings.argType integerType
  cases arg.type with
  | int | uint =>
    cases arg.enum with
    | none => exact .refl _
    | some name => exact h.enumType name
  | fixed | string | fd => exact .refl _
  | newId =>
    cases arg.interface with
    | none => exact .refl _
    | some name => exact h.handleType name
  | object | array =>
    cases arg.interface with
    | none => exact .refl _
    | some name =>
      simp only [eval_map]
      exact (h.handleType name).map fun _ _ => congrArg _

theorem conversion (arg : Arg) :
    Follows strict Eq (eval registry (conversion place arg))
      (eval other (Bindings.conversion place' arg)) := by
  unfold Bindings.conversion integerConversion
  cases arg.type with
  | int | uint =>
    cases arg.enum with
    | none => exact .refl _
    | some name =>
      simp only [bind_pure_comp, eval_map]
      apply (h.findEnum name).map
      intro found found' hfound
      rw [hfound.bitfield_eq]
  | fixed | string | fd | newId | object => exact .refl _
  | array =>
    cases arg.interface with
    | none => exact .refl _
    | some name =>
      simp only [eval_map]
      exact (h.handleType name).map fun _ _ => congrArg _

theorem returnType (request : Request) :
    Follows strict Eq (eval registry (returnType place request))
      (eval other (Bindings.returnType place' request)) := by
  unfold Bindings.returnType
  rw [handleName_congr h.interface]
  split
  · simp only [eval_map]
    exact (h.handleType _).map fun _ _ => congrArg _
  · exact .refl _
  · exact .refl _

theorem holds {typing : Typing} (hinterface : place'.interface = place.interface)
    (hholds : typing.Holds registry place) : typing.Holds other place' where
  type := by
    rw [hinterface]
    intro message hmessage arg harg
    exact (h.argType arg).eq_ok (hholds.type message hmessage arg harg)
  conversion := by
    rw [hinterface]
    intro event hevent arg harg
    exact (h.conversion arg).eq_ok (hholds.conversion event hevent arg harg)
  result := by
    rw [hinterface]
    intro request hrequest
    exact (h.returnType request).eq_ok (hholds.result request hrequest)

end Corresponds
end Bindings
end Waybind
