import Waybind.Proofs.Bindings.Imports
import Waybind.Proofs.Registry.Frame

/-!
This module contains what lookups leave behind, over any history of them. The globals of a protocol
are the families of the interfaces that were found from it, other than its own, and nothing changes
that another lookup could tell.
-/

namespace Waybind

open Xml (Element)

namespace Lookup

section Notes

variable {ε α β : Type} {reference registry : Registry} {m : LookupM ε α}
  {uses : List (Nat × String)}

def Notes (reference : Registry) (m : LookupM ε α) (uses : List (Nat × String)) : Prop :=
  ∀ state, reference.Like state.registry →
    (exec m state).2.registry.members = noteGlobals state.registry.members uses

def Silent (m : LookupM ε α) : Prop :=
  ∀ state, (exec m state).2 = state

theorem Silent.notes (h : Silent m) : Notes reference m [] := by
  intro state _
  rw [h state]
  rfl

theorem Yields.notes {value : α} (h : Yields reference m value uses) : Notes reference m uses := by
  intro state hlike
  exact (h state hlike).2.2

theorem Notes.bind_silent (h : Notes reference m uses) {f : α → LookupM ε β}
    (hf : ∀ a, Silent (f a)) : Notes reference (m >>= f) uses := by
  intro state hlike
  have hmembers := h state hlike
  rcases hrun : exec m state with ⟨error | a, state'⟩
  · rw [exec_bind_error hrun]
    rwa [hrun] at hmembers
  · rw [exec_bind_ok hrun, hf a]
    rwa [hrun] at hmembers

theorem Finds.like {P : α → Prop} {usesOf : α → List (Nat × String)}
    (h : Finds reference m P usesOf) {state : State} (hlike : reference.Like state.registry) :
    reference.Like (exec m state).2.registry := by
  rcases h with ⟨error, hfails⟩ | ⟨a, -, hyields⟩
  · exact (hfails state hlike).1
  · exact (hyields state hlike).1

theorem Finds.eval_eq_of_like {P : α → Prop} {usesOf : α → List (Nat × String)}
    (h : Finds reference m P usesOf) (hcoherent : reference.Coherent)
    (hlike : reference.Like registry) : eval registry m = eval reference m := by
  rcases h with ⟨error, hfails⟩ | ⟨a, -, hyields⟩
  · rw [hfails.eval_eq hcoherent]
    exact (hfails ⟨registry, #[]⟩ hlike).2
  · rw [hyields.eval_eq hcoherent]
    exact (hyields ⟨registry, #[]⟩ hlike).2.1

end Notes

section Functions

variable {reference : Registry} {current : Protocol}

theorem exec_recordReference_ok (ε : Type) (current : Protocol) (family : String) (state : State) :
    (exec (recordReference current family : LookupM ε Unit) state).1 = .ok () := by
  rw [recordReference, exec_bind_ok (exec_get state)]
  split
  · rfl
  · rfl

theorem members_findInNamespace_error {family name : String} {state state' : State} {error : Error}
    (h : exec (findInNamespace current family name) state = (.error error, state')) :
    state'.registry.members = state.registry.members := by
  have hopen : exec (openNamespace family : LookupM Error Namespace) state =
      (.ok (state.registry.namespaceOf family),
        { state with registry := state.registry.touch family }) := rfl
  rw [findInNamespace, exec_bind_ok hopen, exec_bind_ok (exec_get _)] at h
  split at h
  · cases h
    exact Registry.members_touch state.registry family
  · rw [notice, exec_bind_ok (exec_modify _ _),
      exec_bind_ok (Prod.ext (exec_recordReference_ok Error current family _) rfl)] at h
    cases h

theorem members_findInterface_error {name : String} {state state' : State} {error : Error}
    (h : exec (findInterface current name) state = (.error error, state')) :
    state'.registry.members = state.registry.members := by
  unfold findInterface at h
  split at h
  · cases h
  · split at h
    · cases h
      rfl
    · split at h
      · cases h
        rfl
      · exact members_findInNamespace_error h

def foundUses (current : Protocol) (found : Except Error Interface) : List (Nat × String) :=
  match found with
  | .ok interface => useOf current interface.family
  | .error _ => []

theorem notes_findInterface (hcoherent : reference.Coherent)
    (hcurrent : current ∈ reference.protocols) (name : String) :
    Notes reference (findInterface current name)
      (foundUses current (eval reference (findInterface current name))) := by
  rcases finds_findInterface hcoherent hcurrent name with ⟨error, hfails⟩ | ⟨interface, -, hyields⟩
  · rw [hfails.eval_eq hcoherent]
    intro state hlike
    exact members_findInterface_error (Prod.ext (hfails state hlike).2 rfl)
  · rw [hyields.eval_eq hcoherent]
    exact hyields.notes

theorem silent_enumOf (owner : Interface) (name : String) : Silent (enumOf owner name) := by
  intro state
  unfold enumOf
  split
  · rfl
  · rfl

/--
The name of the interface in a reference to an enumeration, if it has exactly one dot.
-/
def interfacePart? (name : String) : Option String :=
  match Text.pieces (· == '.') name.toList with
  | [interface, _] => some (String.ofList interface)
  | _ => none

theorem notes_findEnum (hcoherent : reference.Coherent) {place : Place}
    (hplace : Registered reference place) (name : String) :
    Notes reference (findEnum place name)
      ((interfacePart? name).elim [] fun interface =>
        foundUses place.protocol (eval reference (findInterface place.protocol interface))) := by
  unfold findEnum interfacePart?
  rcases Text.pieces (· == '.') name.toList with _ | ⟨first, _ | ⟨second, _ | ⟨third, rest⟩⟩⟩
  · exact Silent.notes fun _ => rfl
  · exact (silent_enumOf place.interface _).notes
  · -- the reference is noted before the enumeration is looked for
    exact (notes_findInterface hcoherent hplace.protocol_mem _).bind_silent fun owner =>
      silent_enumOf owner _
  · exact Silent.notes fun _ => rfl

end Functions

end Lookup

namespace Registry

open Lookup

inductive Query where
  | interface (protocol : Nat) (name : String)
  | enum (place : InterfaceId) (name : String)

namespace Query

def action : Query → Action
  | .interface protocol name => .findInterface protocol name
  | .enum place name => .findEnum place name

def origin? (registry : Registry) : Query → Option Protocol
  | .interface protocol _ => registry.protocol? protocol
  | .enum place _ => (registry.interface? place).bind fun _ => registry.protocol? place.protocol

def interfaceName? : Query → Option String
  | .interface _ name => some name
  | .enum _ name => interfacePart? name

/--
The interface that the interface part of a lookup is resolved to, whatever becomes of the rest, and
the protocol that the lookup is made from.
-/
def resolved? (registry : Registry) (query : Query) : Option (Protocol × Interface) := do
  let current ← query.origin? registry
  let name ← query.interfaceName?
  let interface ← (eval registry (findInterface current name)).toOption
  return (current, interface)

end Query

def ask (registry : Registry) (query : Query) : Registry :=
  registry.step query.action

/--
What the interface parts of the lookups of a history are resolved to, each one in the registry that
the lookups before it leave.
-/
def resolutions (registry : Registry) (queries : List Query) : List (Protocol × Interface) :=
  match queries with
  | [] => []
  | query :: queries =>
    (query.resolved? registry).toList ++ resolutions (registry.ask query) queries

section Ask

variable {reference registry : Registry}

theorem Like.protocol?_eq (hlike : reference.Like registry) (number : Nat) :
    registry.protocol? number = reference.protocol? number := by
  rw [Registry.protocol?_eq, hlike.protocols_eq, ← Registry.protocol?_eq]

theorem Like.interface?_eq (hlike : reference.Like registry) (id : InterfaceId) :
    registry.interface? id = reference.interface? id := by
  rw [interface?, interface?, hlike.protocol?_eq]

theorem origin?_eq (hlike : reference.Like registry) (query : Query) :
    query.origin? registry = query.origin? reference := by
  cases query with
  | interface protocol name => exact hlike.protocol?_eq protocol
  | enum place name =>
    rw [Query.origin?, Query.origin?, hlike.interface?_eq, hlike.protocol?_eq]

theorem mem_of_origin? {query : Query} {current : Protocol}
    (h : query.origin? reference = some current) : current ∈ reference.protocols := by
  rw [mem_protocols_iff]
  cases query with
  | interface protocol name => exact ⟨protocol, h⟩
  | enum place name =>
    obtain ⟨_, -, hprotocol⟩ := Option.bind_eq_some_iff.mp h
    exact ⟨place.protocol, hprotocol⟩

def Query.uses (reference : Registry) (query : Query) : List (Nat × String) :=
  (query.resolved? reference).toList.flatMap fun found => useOf found.1 found.2.family

theorem uses_eq_nil {query : Query} (h : query.origin? reference = none) :
    query.uses reference = [] := by
  simp [Query.uses, Query.resolved?, h]

theorem uses_eq {query : Query} {current : Protocol} (h : query.origin? reference = some current) :
    query.uses reference = query.interfaceName?.elim [] fun name =>
      foundUses current (eval reference (findInterface current name)) := by
  cases hname : query.interfaceName? with
  | none => simp [Query.uses, Query.resolved?, h, hname]
  | some name =>
    cases hfound : eval reference (findInterface current name) with
    | error error =>
      simp [Query.uses, Query.resolved?, h, hname, hfound, foundUses, Except.toOption]
    | ok interface =>
      simp [Query.uses, Query.resolved?, h, hname, hfound, foundUses, Except.toOption]

structure LeftBy (reference registry : Registry) (query : Query) (after : Registry) : Prop where
  like : reference.Like after
  members_eq : after.members = noteGlobals registry.members (query.uses reference)
  families_eq : after.families = registry.families

theorem leftBy_unasked (hlike : reference.Like registry) {query : Query}
    (h : query.origin? reference = none) : LeftBy reference registry query registry where
  like := hlike
  members_eq := by
    rw [uses_eq_nil h]
    rfl
  families_eq := rfl

theorem leftBy_afterLookup (hlike : reference.Like registry) {α : Type} {m : LookupM Lookup.Error α}
    {P : α → Prop} {usesOf : α → List (Nat × String)} (hfinds : Finds reference m P usesOf)
    {current : Protocol} (hfrom : From current m) {query : Query}
    (hnotes : Notes reference m (query.uses reference)) :
    LeftBy reference registry query (registry.afterLookup m) where
  like := hfinds.like hlike
  members_eq := hnotes ⟨registry, #[]⟩ hlike
  families_eq := (hfrom ⟨registry, #[]⟩).families_eq

variable (hcoherent : reference.Coherent) (hlike : reference.Like registry)

include hcoherent hlike

theorem resolved?_eq (query : Query) : query.resolved? registry = query.resolved? reference := by
  unfold Query.resolved?
  rw [origin?_eq hlike]
  cases horigin : query.origin? reference with
  | none => rfl
  | some current =>
    cases query.interfaceName? with
    | none => rfl
    | some name =>
      have hfinds := finds_findInterface hcoherent (mem_of_origin? horigin) name
      simp only [Option.bind_eq_bind, Option.bind_some, hfinds.eval_eq_of_like hcoherent hlike]

theorem leftBy_ask (query : Query) : LeftBy reference registry query (registry.ask query) := by
  cases horigin : query.origin? reference with
  | none =>
    -- nothing is looked up from a place that there is not
    have hask : registry.ask query = registry := by
      rw [← origin?_eq hlike] at horigin
      cases query with
      | interface protocol name =>
        simp only [Query.origin?] at horigin
        simp only [ask, Query.action, step, horigin]
      | enum place name =>
        simp only [ask, Query.action, step]
        split
        · next protocol interface hprotocol hinterface =>
          simp [Query.origin?, hprotocol, hinterface] at horigin
        · rfl
    rw [hask]
    exact leftBy_unasked hlike horigin
  | some current =>
    have hcurrent := mem_of_origin? horigin
    have huses := uses_eq horigin
    cases query with
    | interface protocol name =>
      have hprotocol : registry.protocol? protocol = some current :=
        (hlike.protocol?_eq protocol).trans horigin
      simp only [ask, Query.action, step, hprotocol]
      apply leftBy_afterLookup hlike (finds_findInterface hcoherent hcurrent name)
        (from_findInterface current name)
      rw [huses]
      exact notes_findInterface hcoherent hcurrent name
    | enum place name =>
      obtain ⟨interface, hinterface, hprotocol⟩ := Option.bind_eq_some_iff.mp horigin
      obtain ⟨_, hprotocol', hindex⟩ := (interface?_eq_some_iff _ _ _).mp hinterface
      obtain rfl : _ = current := Option.some.inj (hprotocol'.symm.trans hprotocol)
      have hplace : Registered reference ⟨_, interface⟩ :=
        ⟨hcurrent, (Table.mem_values_iff _ interface).mpr ⟨place.index, hindex⟩⟩
      rw [← hlike.protocol?_eq] at hprotocol
      rw [← hlike.interface?_eq] at hinterface
      simp only [ask, Query.action, step, hprotocol, hinterface]
      apply leftBy_afterLookup hlike (finds_findEnum hcoherent hplace name)
        (from_findEnum _ name)
      rw [huses]
      exact notes_findEnum hcoherent hplace name

theorem resolutions_eq (queries : List Query) :
    resolutions registry queries =
      queries.flatMap fun query => (query.resolved? reference).toList := by
  induction queries generalizing registry with
  | nil => rfl
  | cons query queries ih =>
    have hleft := leftBy_ask hcoherent hlike query
    rw [resolutions, resolved?_eq hcoherent hlike, ih hleft.like, List.flatMap_cons]

theorem leftBy_history (queries : List Query) :
    reference.Like (queries.foldl ask registry)
      ∧ (queries.foldl ask registry).members =
        noteGlobals registry.members (queries.flatMap (Query.uses reference))
      ∧ (queries.foldl ask registry).families = registry.families := by
  induction queries generalizing registry with
  | nil => exact ⟨hlike, rfl, rfl⟩
  | cons query queries ih =>
    have hleft := leftBy_ask hcoherent hlike query
    obtain ⟨hfinal, hmembers, hfamilies⟩ := ih hleft.like
    refine ⟨hfinal, ?_, hfamilies.trans hleft.families_eq⟩
    rw [List.foldl_cons, hmembers, hleft.members_eq, List.flatMap_cons, noteGlobals_append]

end Ask

section Globals

variable {registry : Registry} (hcoherent : registry.Coherent)

theorem mem_protocols_of_resolved? (queries : List Query) :
    ∀ found ∈ queries.flatMap fun query => (query.resolved? registry).toList,
      found.1 ∈ registry.protocols := by
  intro found h
  obtain ⟨query, -, hfound⟩ := List.mem_flatMap.mp h
  rw [Option.mem_toList, Query.resolved?] at hfound
  simp only [Option.bind_eq_bind, Option.pure_def, Option.bind_eq_some_iff,
    Option.some.injEq] at hfound
  obtain ⟨current, horigin, _, -, _, -, rfl⟩ := hfound
  exact mem_of_origin? horigin

include hcoherent

theorem usedFrom_found {number : Nat} {protocol : Protocol}
    (hprotocol : registry.protocol? number = some protocol)
    {founds : List (Protocol × Interface)} (h : ∀ found ∈ founds, found.1 ∈ registry.protocols) :
    usedFrom number (founds.flatMap fun found => useOf found.1 found.2.family) =
      (founds.filter fun found =>
        found.1.id == number && found.2.family != protocol.family).map (·.2.family) := by
  induction founds with
  | nil => rfl
  | cons found founds ih =>
    obtain ⟨hfound, hfounds⟩ := List.forall_mem_cons.mp h
    have hown : found.1.id = number → found.1 = protocol := by
      rintro rfl
      exact Option.some.inj ((hcoherent.protocol?_id hfound).symm.trans hprotocol)
    rw [Bindings.usedFrom_flatMap] at ih ⊢
    rw [List.flatMap_cons, ih hfounds, List.filter_cons, useOf]
    by_cases hnumber : found.1.id = number
    · rw [hown hnumber]
      by_cases hfamily : found.2.family = protocol.family
      · simp [usedFrom, hfamily]
      · simp [usedFrom, hfamily, ← hnumber, hown hnumber]
    · by_cases hfamily : found.2.family = found.1.family
      · simp [usedFrom, hfamily, hnumber]
      · simp [usedFrom, hfamily, hnumber]

end Globals

/--
After any history of lookups in the documents that were added, the globals of a protocol are the
families of what the lookups from it were resolved to, other than its own, in the order of the first
one of each. The families of the registry stay the same, and so does what any lookup finds.
-/
theorem globals_eq_eraseDups_resolutions (documents : List Element) (queries : List Query) :
    let registry := after (documents.map .add)
    let final := queries.foldl ask registry
    (∀ number protocol, registry.protocol? number = some protocol →
      final.globals number =
        (((resolutions registry queries).filter fun found =>
          found.1.id == number && found.2.family != protocol.family).map (·.2.family)).eraseDups)
    ∧ final.families = registry.families
    ∧ (∀ protocol ∈ registry.protocols, ∀ name,
      eval final (findInterface protocol name) = eval registry (findInterface protocol name))
    ∧ ∀ place, Registered registry place → ∀ name,
      eval final (findEnum place name) = eval registry (findEnum place name) := by
  intro registry final
  have hcoherent : registry.Coherent := coherent_after _
  have hself : registry.Like registry := ⟨hcoherent, rfl⟩
  obtain ⟨hlike, hmembers, hfamilies⟩ := leftBy_history hcoherent hself queries
  refine ⟨?_, hfamilies, ?_, ?_⟩
  · intro number protocol hprotocol
    obtain ⟨member, hmember, -⟩ := (protocol?_eq_some_iff _ _ _).mp hprotocol
    have hfresh : member.globals = [] :=
      Bindings.globals_after_add documents member (List.mem_of_getElem? hmember)
    have huses : queries.flatMap (Query.uses registry) =
        (queries.flatMap fun query => (query.resolved? registry).toList).flatMap
          fun found => useOf found.1 found.2.family := List.flatMap_assoc.symm
    have hfound := usedFrom_found hcoherent hprotocol (mem_protocols_of_resolved? queries)
    rw [resolutions_eq hcoherent hself, ← hfound, ← huses, Bindings.eraseDups_eq_foldl, globals,
      hmembers, getElem?_noteGlobals, hmember, ← hfresh]
    rfl
  · intro protocol hprotocol name
    exact (finds_findInterface hcoherent hprotocol name).eval_eq_of_like hcoherent hlike
  · intro place hplace name
    exact (finds_findEnum hcoherent hplace name).eval_eq_of_like hcoherent hlike

end Registry
end Waybind
