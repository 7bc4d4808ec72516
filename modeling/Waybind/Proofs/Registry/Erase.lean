import Waybind.Proofs.Bindings.Correspondence
import Waybind.Proofs.Protocol.Erase

/-!
This module contains lookups in registries of which the protocols differ in their documentation
only. What is found differs in its documentation only, too.
-/

namespace Waybind

open Registry (ofFamily)

structure Registry.Redocumented (registry registry' : Registry) : Prop where
  coherent : registry.Coherent
  coherent' : registry'.Coherent
  protocols_eq : registry.protocols.map Protocol.erase = registry'.protocols.map Protocol.erase

def Place.erase (place : Place) : Place :=
  ⟨place.protocol.erase, place.interface.erase⟩

theorem Interface.Alike.of_erase_eq {interface other : Interface}
    (h : interface.erase = other.erase) : interface.Alike other where
  id_eq := (congrArg Interface.id h :)
  family_eq := (congrArg Interface.family h :)
  name_eq := (congrArg Interface.name h :)

theorem EnumsAlike.of_erase_eq {found other : Interface × Enumeration}
    (h : (found.1.erase, found.2.erase) = (other.1.erase, other.2.erase)) :
    EnumsAlike found other where
  owner := .of_erase_eq (congrArg Prod.fst h)
  name_eq := congrArg (fun erased => erased.2.name) h
  bitfield_eq := congrArg (fun erased => erased.2.bitfield) h

theorem Follows.of_map_eq {ε α β γ : Type} {strict : Prop} {x : Except ε α} {y : Except ε β}
    {f : α → γ} {g : β → γ} (h : x.map f = y.map g) :
    Follows strict (fun a b => f a = g b) x y := by
  cases x with
  | error error =>
    cases y with
    | error error' =>
      intro _
      rw [Except.error.inj h]
    | ok b => cases h
  | ok a =>
    cases y with
    | error error => cases h
    | ok b => exact .of_ok (Except.ok.inj h)

theorem Follows.bind {ε α β γ δ : Type} {strict : Prop} {x : Except ε α} {y : Except ε β}
    {R : α → β → Prop} {S : γ → δ → Prop} (h : Follows strict R x y) {f : α → Except ε γ}
    {g : β → Except ε δ} (hbind : ∀ a b, R a b → Follows strict S (f a) (g b)) :
    Follows strict S (x >>= f) (y >>= g) := by
  cases x with
  | error error =>
    intro hstrict
    rw [h hstrict]
    rfl
  | ok a =>
    obtain ⟨b, rfl, hab⟩ := h
    exact hbind a b hab

theorem Follows.mono {ε α β : Type} {strict : Prop} {x : Except ε α} {y : Except ε β}
    {R S : α → β → Prop} (h : Follows strict R x y) (hRS : ∀ a b, R a b → S a b) :
    Follows strict S x y := by
  cases x with
  | error error => exact h
  | ok a =>
    obtain ⟨b, hy, hab⟩ := h
    exact ⟨b, hy, hRS a b hab⟩

namespace Lookup

section Erase

theorem findDeclared?_erase (protocols : List Protocol) (name : String) :
    findDeclared? (protocols.map Protocol.erase) name =
      (findDeclared? protocols name).map fun found => (found.1, found.2.erase) := by
  unfold findDeclared?
  rw [List.findSome?_map, List.map_findSome?]
  congr 1
  funext protocol
  simp only [Function.comp_apply, Protocol.erase, Table.get?_map]
  cases protocol.interfaces.get? name with
  | none => rfl
  | some interface => rfl

theorem declaredEnum_erase (owner : Interface) (name : String) :
    declaredEnum owner.erase name =
      (declaredEnum owner name).map fun found => (found.1.erase, found.2.erase) := by
  have henums : owner.erase.enums.get? name = (owner.enums.get? name).map Enumeration.erase :=
    Table.get?_map _ _ _
  unfold declaredEnum
  rw [henums]
  cases owner.enums.get? name with
  | none => rfl
  | some enum => rfl

end Erase

end Lookup

namespace Registry.Redocumented

open Lookup

variable {registry registry' : Registry} (h : registry.Redocumented registry')

include h

theorem ofFamily_eq (family : String) :
    (ofFamily registry.protocols family).map Protocol.erase =
      (ofFamily registry'.protocols family).map Protocol.erase := by
  have hfilter (protocols : List Protocol) : ofFamily (protocols.map Protocol.erase) family =
      (ofFamily protocols family).map Protocol.erase := by
    rw [ofFamily, List.filter_map]
    rfl
  rw [← hfilter, ← hfilter, h.protocols_eq]

theorem eval_findInNamespace (current current' : Protocol) (family name : String) :
    (eval registry (findInNamespace current family name)).map Interface.erase =
      (eval registry' (findInNamespace current' family name)).map Interface.erase := by
  have hfound := congrArg (findDeclared? · name) (h.ofFamily_eq family)
  simp only [findDeclared?_erase] at hfound
  rw [Lookup.eval_findInNamespace h.coherent, Lookup.eval_findInNamespace h.coherent']
  cases hfirst : findDeclared? (ofFamily registry.protocols family) name with
  | none =>
    rw [hfirst, Option.map_none, eq_comm, Option.map_eq_none_iff] at hfound
    rw [hfound]
  | some found =>
    rw [hfirst, Option.map_some, eq_comm, Option.map_eq_some_iff] at hfound
    obtain ⟨other, hother, herase⟩ := hfound
    rw [hother]
    exact congrArg (fun erased => Except.ok erased.2) herase.symm

theorem eval_findInterface {current current' : Protocol}
    (hcurrent : current.erase = current'.erase) (name : String) :
    (eval registry (findInterface current name)).map Interface.erase =
      (eval registry' (findInterface current' name)).map Interface.erase := by
  have hget : (current.interfaces.get? name).map Interface.erase =
      (current'.interfaces.get? name).map Interface.erase := by
    have hown := congrArg (fun erased : Protocol => erased.interfaces.get? name) hcurrent
    simpa only [Protocol.erase, Table.get?_map] using hown
  unfold findInterface
  cases hfirst : current.interfaces.get? name with
  | some interface =>
    rw [hfirst, Option.map_some, eq_comm, Option.map_eq_some_iff] at hget
    obtain ⟨other, hother, herase⟩ := hget
    rw [hother]
    exact congrArg Except.ok herase.symm
  | none =>
    rw [hfirst, Option.map_none, eq_comm, Option.map_eq_none_iff] at hget
    rw [hget]
    cases splitName? name with
    | none => rfl
    | some parts =>
      simp only
      split
      · rfl
      · exact h.eval_findInNamespace current current' parts.1 name

theorem follows_findEnum {place place' : Place} (hplace : place.erase = place'.erase)
    (name : String) :
    Follows True
      (fun found other => (found.1.erase, found.2.erase) = (other.1.erase, other.2.erase))
      (eval registry (findEnum place name)) (eval registry' (findEnum place' name)) := by
  have hprotocol : place.protocol.erase = place'.protocol.erase := congrArg Place.protocol hplace
  have hinterface : place.interface.erase = place'.interface.erase :=
    congrArg Place.interface hplace
  have henum {owner other : Interface} (howner : owner.erase = other.erase) (enum : String) :
      Follows True
        (fun found other => (found.1.erase, found.2.erase) = (other.1.erase, other.2.erase))
        (declaredEnum owner enum) (declaredEnum other enum) := by
    apply Follows.of_map_eq
    rw [← declaredEnum_erase, ← declaredEnum_erase, howner]
  unfold findEnum
  split
  · simp only [eval, exec_enumOf]
    exact henum hinterface _
  · rw [eval_findInterface_enumOf, eval_findInterface_enumOf]
    apply (Follows.of_map_eq (h.eval_findInterface hprotocol _)).bind
    intro owner other howner
    exact henum howner _
  · exact fun _ => rfl

theorem corresponds {place place' : Place} (hplace : place.erase = place'.erase) :
    Bindings.Corresponds True registry registry' place place' where
  interface := .of_erase_eq (congrArg Place.interface hplace)
  findInterface := by
    intro name
    apply (Follows.of_map_eq (h.eval_findInterface (congrArg Place.protocol hplace) name)).mono
    intro _ _
    exact .of_erase_eq
  findEnum := by
    intro name
    apply (h.follows_findEnum hplace name).mono
    intro _ _
    exact .of_erase_eq

end Registry.Redocumented
end Waybind
