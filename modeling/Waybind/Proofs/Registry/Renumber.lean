import Waybind.Proofs.Protocol.Renumber
import Waybind.Proofs.Registry.Lookup

/-!
This module contains lookups in registries that have the same protocols under other numbers. As long
as the order within each family is the same, what is found is the same up to the numbers.
-/

namespace Waybind

open Registry (ofFamily)

structure Registry.Renumbered (f : Nat → Nat) (registry registry' : Registry) : Prop where
  coherent : registry.Coherent
  coherent' : registry'.Coherent
  ofFamily_eq : ∀ family, ofFamily registry'.protocols family =
    (ofFamily registry.protocols family).map (Protocol.renumber f)

namespace Registry.Renumbered

variable {f : Nat → Nat} {registry registry' : Registry} (h : registry.Renumbered f registry')

include h

theorem renumber_mem {protocol : Protocol} (hprotocol : protocol ∈ registry.protocols) :
    protocol.renumber f ∈ registry'.protocols := by
  have hmem : protocol.renumber f ∈ ofFamily registry'.protocols protocol.family := by
    rw [h.ofFamily_eq]
    apply List.mem_map_of_mem
    exact List.mem_filter.mpr ⟨hprotocol, beq_self_eq_true _⟩
  exact List.mem_of_mem_filter hmem

theorem eq_of_number_eq {protocol other : Protocol} (hprotocol : protocol ∈ registry.protocols)
    (hother : other ∈ registry.protocols) (heq : f protocol.id = f other.id) :
    protocol = other := by
  have hid := h.coherent'.protocol?_id (h.renumber_mem hprotocol)
  have hid' := h.coherent'.protocol?_id (h.renumber_mem hother)
  have hsame : protocol.renumber f = other.renumber f := by
    have hnumbers : (protocol.renumber f).id = (other.renumber f).id := heq
    rw [hnumbers, hid', Option.some.injEq] at hid
    exact hid.symm
  -- renumbering is not injective in itself, but a family has no protocol twice
  have hfamily : other.family = protocol.family := (congrArg Protocol.family hsame).symm
  have hnodup : ((ofFamily registry.protocols protocol.family).map
      (Protocol.renumber f)).Nodup := by
    rw [← h.ofFamily_eq]
    exact (h.coherent'.pairwise_id_ofFamily protocol.family).nodup.of_map _
  refine List.inj_on_of_nodup_map hnodup ?_ ?_ hsame
  · exact List.mem_filter.mpr ⟨hprotocol, beq_self_eq_true _⟩
  · exact List.mem_filter.mpr ⟨hother, beq_iff_eq.mpr hfamily⟩

end Registry.Renumbered

def Place.renumber (f : Nat → Nat) (place : Place) : Place :=
  ⟨place.protocol.renumber f, place.interface.renumber f⟩

namespace Lookup

section Eval

variable {reference : Registry}

theorem eval_map {ε α β : Type} (m : LookupM ε α) (g : α → β) :
    eval reference (g <$> m) = (eval reference m).map g := by
  rw [eval, exec_map]
  rfl

theorem exec_notice (n : Notice) (state : State) :
    exec (notice n : LookupM Error Unit) state =
      (.ok (), { state with notices := state.notices.push n }) := by
  rfl

theorem exists_exec_recordReference (current : Protocol) (family : String) (state : State) :
    ∃ state', exec (recordReference current family : LookupM Error Unit) state =
      (.ok (), state') := by
  rw [recordReference, exec_bind_ok (exec_get state)]
  split
  · exact ⟨_, rfl⟩
  · exact ⟨_, rfl⟩

theorem eval_findInNamespace (hcoherent : reference.Coherent) (current : Protocol)
    (family name : String) :
    eval reference (findInNamespace current family name) =
      match findDeclared? (ofFamily reference.protocols family) name with
      | none => .error (.unknownInterface family name)
      | some found => .ok found.2 := by
  obtain ⟨hlike, hrun, -⟩ := yields_openNamespace Error family ⟨reference, #[]⟩ ⟨hcoherent, rfl⟩
  rw [eval, findInNamespace, exec_bind_ok (Prod.ext hrun rfl), exec_bind_ok (exec_get _),
    hlike.coherent.protocolsOf_eq, hlike.protocols_eq]
  cases findDeclared? (ofFamily reference.protocols family) name with
  | none => rfl
  | some found =>
    simp only
    rw [exec_bind_ok (exec_notice _ _)]
    obtain ⟨state, hrecord⟩ := exists_exec_recordReference current family _
    rw [exec_bind_ok hrecord]
    rfl

def declaredEnum (owner : Interface) (name : String) : Except Error (Interface × Enumeration) :=
  match owner.enums.get? name with
  | some enum => .ok (owner, enum)
  | none => .error (.unknownEnum owner.fullName name)

theorem exec_enumOf (owner : Interface) (name : String) (state : State) :
    exec (enumOf owner name) state = (declaredEnum owner name, state) := by
  unfold enumOf declaredEnum
  cases owner.enums.get? name with
  | some enum => rfl
  | none => rfl

theorem eval_findInterface_enumOf (current : Protocol) (interface enum : String) :
    eval reference (findInterface current interface >>= fun owner => enumOf owner enum) =
      eval reference (findInterface current interface) >>= fun owner =>
        declaredEnum owner enum := by
  unfold eval
  rcases hfind : exec (findInterface current interface) ⟨reference, #[]⟩ with ⟨error | owner, state⟩
  · rw [exec_bind_error hfind]
    rfl
  · rw [exec_bind_ok hfind, exec_enumOf]
    rfl

end Eval

section Renumber

variable {f : Nat → Nat} {registry registry' : Registry}

theorem findDeclared?_renumber (protocols : List Protocol) (name : String) :
    findDeclared? (protocols.map (Protocol.renumber f)) name =
      (findDeclared? protocols name).map fun found => (found.1, found.2.renumber f) := by
  unfold findDeclared?
  rw [List.findSome?_map, List.map_findSome?]
  congr 1
  funext protocol
  simp only [Function.comp_apply, Protocol.renumber, Table.get?_map]
  cases protocol.interfaces.get? name with
  | none => rfl
  | some interface => rfl

theorem declaredEnum_renumber (owner : Interface) (name : String) :
    declaredEnum (owner.renumber f) name =
      (declaredEnum owner name).map fun found => (found.1.renumber f, found.2) := by
  have henums : (owner.renumber f).enums = owner.enums := rfl
  unfold declaredEnum
  rw [henums]
  cases owner.enums.get? name with
  | none => rfl
  | some enum => rfl

variable (h : registry.Renumbered f registry')

include h

theorem eval_findInterface_renumber (current : Protocol) (name : String) :
    eval registry' (findInterface (current.renumber f) name) =
      (eval registry (findInterface current name)).map (Interface.renumber f) := by
  have hget : (current.renumber f).interfaces.get? name =
      (current.interfaces.get? name).map (Interface.renumber f) := Table.get?_map _ _ _
  unfold findInterface
  rw [hget]
  cases current.interfaces.get? name with
  | some interface => rfl
  | none =>
    cases splitName? name with
    | none => rfl
    | some parts =>
      simp only [Option.map_none]
      split
      · rfl
      · rw [eval_findInNamespace h.coherent', eval_findInNamespace h.coherent, h.ofFamily_eq,
          findDeclared?_renumber]
        cases findDeclared? (ofFamily registry.protocols parts.1) name with
        | none => rfl
        | some found => rfl

theorem eval_findEnum_renumber (place : Place) (name : String) :
    eval registry' (findEnum (place.renumber f) name) =
      (eval registry (findEnum place name)).map fun found => (found.1.renumber f, found.2) := by
  unfold findEnum
  split
  · simp only [eval, exec_enumOf]
    exact declaredEnum_renumber place.interface _
  · next interface enum _ =>
    have hinterface := eval_findInterface_renumber h place.protocol (String.ofList interface)
    rw [eval_findInterface_enumOf, eval_findInterface_enumOf, Place.renumber, hinterface]
    cases eval registry (findInterface place.protocol (String.ofList interface)) with
    | error error => rfl
    | ok owner => exact declaredEnum_renumber owner _
  · rfl

end Renumber

end Lookup
end Waybind
