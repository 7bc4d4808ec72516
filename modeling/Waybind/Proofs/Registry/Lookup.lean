import Waybind.Proofs.Registry.Coherence
import Waybind.Registry.Lookup

/-!
This module contains how lookups run. What they find depends on the registered protocols alone, and
they leave a registry with the same protocols in which, if they succeed, certain references are
noted.
-/

namespace Waybind

open Registry (appendNew)

section Globals

theorem mem_foldl_appendNew (families init : List String) (family : String) :
    family ∈ families.foldl appendNew init ↔ family ∈ init ∨ family ∈ families := by
  induction families generalizing init with
  | nil => simp
  | cons first families ih =>
    rw [List.foldl_cons, ih, Registry.mem_appendNew, List.mem_cons, or_assoc]

theorem foldl_appendNew_of_subset {families init : List String} (h : families ⊆ init) :
    families.foldl appendNew init = init := by
  induction families with
  | nil => rfl
  | cons first families ih =>
    obtain ⟨hfirst, hrest⟩ := List.cons_subset.mp h
    have hnew : appendNew init first = init := by
      rw [appendNew, List.contains_iff_mem.mpr hfirst, if_pos rfl]
    rw [List.foldl_cons, hnew, ih hrest]

def noteGlobals (members : List Member) (uses : List (Nat × String)) : List Member :=
  uses.foldl (fun members use => members.modify use.1 fun member =>
    { member with globals := appendNew member.globals use.2 }) members

theorem noteGlobals_append (members : List Member) (uses uses' : List (Nat × String)) :
    noteGlobals members (uses ++ uses') = noteGlobals (noteGlobals members uses) uses' :=
  List.foldl_append

def usedFrom (number : Nat) (uses : List (Nat × String)) : List String :=
  (uses.filter (·.1 == number)).map (·.2)

theorem getElem?_noteGlobals (members : List Member) (uses : List (Nat × String)) (number : Nat) :
    (noteGlobals members uses)[number]? =
      members[number]?.map fun member =>
        ⟨member.protocol, (usedFrom number uses).foldl appendNew member.globals⟩ := by
  induction uses generalizing members with
  | nil => simp [noteGlobals, usedFrom]
  | cons use uses ih =>
    have hstep : noteGlobals members (use :: uses) =
        noteGlobals (noteGlobals members [use]) uses := rfl
    rw [hstep, ih]
    by_cases hnumber : use.1 = number
    · simp [noteGlobals, usedFrom, hnumber, Function.comp_def]
    · simp [noteGlobals, usedFrom, hnumber]

theorem noteGlobals_of_subset {members : List Member} {uses uses' : List (Nat × String)}
    (h : uses' ⊆ uses) : noteGlobals members (uses ++ uses') = noteGlobals members uses := by
  apply List.ext_getElem?
  intro number
  have hsub : usedFrom number uses' ⊆ usedFrom number uses :=
    List.map_subset _ (List.filter_subset _ h)
  have hused : usedFrom number (uses ++ uses') = usedFrom number uses ++ usedFrom number uses' := by
    simp [usedFrom]
  rw [getElem?_noteGlobals, getElem?_noteGlobals, hused]
  congr 1
  funext member
  rw [List.foldl_append, foldl_appendNew_of_subset]
  intro family hfamily
  rw [mem_foldl_appendNew]
  exact .inr (hsub hfamily)

theorem noteGlobals_of_mem {registry : Registry} {number : Nat} {family : String}
    (h : family ∈ registry.globals number) :
    noteGlobals registry.members [(number, family)] = registry.members := by
  apply List.ext_getElem?
  intro other
  rw [getElem?_noteGlobals]
  cases hmember : registry.members[other]? with
  | none => rfl
  | some member =>
    by_cases hother : number = other
    · subst hother
      rw [Registry.globals, hmember] at h
      have hused : usedFrom number [(number, family)] = [family] := by simp [usedFrom]
      rw [hused, Option.map_some, foldl_appendNew_of_subset]
      exact List.cons_subset.mpr ⟨h, List.nil_subset _⟩
    · simp [usedFrom, hother]

end Globals

structure Registry.Like (reference registry : Registry) : Prop where
  coherent : registry.Coherent
  protocols_eq : registry.protocols = reference.protocols

namespace Lookup

/--
On every registry with the protocols of `reference` a lookup fails with `error`, and leaves such a
registry.
-/
def Fails {ε α : Type} (reference : Registry) (m : LookupM ε α) (error : ε) : Prop :=
  ∀ state, reference.Like state.registry →
    reference.Like (exec m state).2.registry ∧ (exec m state).1 = .error error

/--
On every registry with the protocols of `reference` a lookup finds `value`, and leaves such a
registry with the references `uses` noted in it.
-/
def Yields {ε α : Type} (reference : Registry) (m : LookupM ε α) (value : α)
    (uses : List (Nat × String)) : Prop :=
  ∀ state, reference.Like state.registry →
    reference.Like (exec m state).2.registry ∧ (exec m state).1 = .ok value
      ∧ (exec m state).2.registry.members = noteGlobals state.registry.members uses

def Runs {ε α : Type} (reference : Registry) (m : LookupM ε α) (fault : Option ε) (value : α)
    (uses : List (Nat × String)) : Prop :=
  match fault with
  | some error => Fails reference m error
  | none => Yields reference m value uses

section Rules

variable {ε δ α β : Type} {reference : Registry} {m : LookupM ε α} {error : ε}
  {fault fault' : Option ε} {value : α} {uses uses' : List (Nat × String)}

theorem Fails.throw (error : ε) :
    Fails reference (MonadExcept.throw error : LookupM ε α) error := by
  intro state hstate
  exact ⟨hstate, rfl⟩

theorem Fails.bind (h : Fails reference m error) (f : α → LookupM ε β) :
    Fails reference (m >>= f) error := by
  intro state hstate
  obtain ⟨hlike, hrun⟩ := h state hstate
  rw [exec_bind_error (Prod.ext hrun rfl)]
  exact ⟨hlike, rfl⟩

theorem Fails.map (h : Fails reference m error) (f : α → β) : Fails reference (f <$> m) error := by
  rw [← bind_pure_comp]
  exact h.bind _

theorem Fails.adapt (h : Fails reference m error) (f : ε → δ) :
    Fails reference (ExceptT.adapt f m) (f error) := by
  intro state hstate
  obtain ⟨hlike, hrun⟩ := h state hstate
  rw [exec_adapt, hrun]
  exact ⟨hlike, rfl⟩

theorem Yields.pure (value : α) : Yields reference (Pure.pure value : LookupM ε α) value [] := by
  intro state hstate
  exact ⟨hstate, rfl, rfl⟩

theorem Yields.bind_fails (h : Yields reference m value uses) {f : α → LookupM ε β}
    (h' : Fails reference (f value) error) : Fails reference (m >>= f) error := by
  intro state hstate
  obtain ⟨hlike, hrun, -⟩ := h state hstate
  rw [exec_bind_ok (Prod.ext hrun rfl)]
  exact h' _ hlike

theorem Yields.bind (h : Yields reference m value uses) {f : α → LookupM ε β} {value' : β}
    (h' : Yields reference (f value) value' uses') :
    Yields reference (m >>= f) value' (uses ++ uses') := by
  intro state hstate
  obtain ⟨hlike, hrun, hmembers⟩ := h state hstate
  rw [exec_bind_ok (Prod.ext hrun rfl), noteGlobals_append, ← hmembers]
  exact h' _ hlike

theorem Yields.map (h : Yields reference m value uses) (f : α → β) :
    Yields reference (f <$> m) (f value) uses := by
  rw [← bind_pure_comp, ← List.append_nil uses]
  exact h.bind (.pure (f value))

theorem Yields.adapt (h : Yields reference m value uses) (f : ε → δ) :
    Yields reference (ExceptT.adapt f m) value uses := by
  intro state hstate
  obtain ⟨hlike, hrun, hmembers⟩ := h state hstate
  rw [exec_adapt, hrun]
  exact ⟨hlike, rfl, hmembers⟩

theorem Yields.absorb (h : Yields reference m value (uses ++ uses')) (hsub : uses' ⊆ uses) :
    Yields reference m value uses := by
  intro state hstate
  have hrun := h state hstate
  rwa [noteGlobals_of_subset hsub] at hrun

theorem Runs.bind (h : Runs reference m fault value uses) {f : α → LookupM ε β} {value' : β}
    (h' : fault = none → Runs reference (f value) fault' value' uses') :
    Runs reference (m >>= f) (fault.or fault') value' (uses ++ uses') := by
  cases fault with
  | some error => exact Fails.bind h f
  | none =>
    specialize h' rfl
    cases fault' with
    | some error => exact Yields.bind_fails h h'
    | none => exact Yields.bind h h'

theorem Runs.map (h : Runs reference m fault value uses) (f : α → β) :
    Runs reference (f <$> m) fault (f value) uses := by
  cases fault with
  | some error => exact Fails.map h f
  | none => exact Yields.map h f

theorem Runs.adapt (h : Runs reference m fault value uses) (f : ε → δ) :
    Runs reference (ExceptT.adapt f m) (fault.map f) value uses := by
  cases fault with
  | some error => exact Fails.adapt h f
  | none => exact Yields.adapt h f

theorem Runs.eq_of_exec_ok (h : Runs reference m fault value uses) {state : State}
    (hlike : reference.Like state.registry) {found : α} (hexec : (exec m state).1 = .ok found) :
    fault = none ∧ value = found := by
  cases fault with
  | some error =>
    obtain ⟨-, hrun⟩ := h state hlike
    rw [hexec] at hrun
    cases hrun
  | none =>
    obtain ⟨-, hrun, -⟩ := h state hlike
    rw [hexec, Except.ok.injEq] at hrun
    exact ⟨rfl, hrun.symm⟩

end Rules

/--
A lookup finds `value`, and notes no references but those in `uses`.
-/
def Within {ε α : Type} (reference : Registry) (m : LookupM ε α) (value : α)
    (uses : List (Nat × String)) : Prop :=
  ∃ noted, Yields reference m value noted ∧ noted ⊆ uses

section Within

variable {ε δ α β : Type} {reference : Registry} {m : LookupM ε α} {fault : Option ε} {value : α}
  {uses : List (Nat × String)}

theorem Within.pure (value : α) :
    Within reference (Pure.pure value : LookupM ε α) value uses :=
  ⟨[], .pure value, List.nil_subset uses⟩

theorem Within.map (h : Within reference m value uses) (f : α → β) :
    Within reference (f <$> m) (f value) uses := by
  obtain ⟨noted, hyields, hsub⟩ := h
  exact ⟨noted, hyields.map f, hsub⟩

theorem Within.adapt (h : Within reference m value uses) (f : ε → δ) :
    Within reference (ExceptT.adapt f m) value uses := by
  obtain ⟨noted, hyields, hsub⟩ := h
  exact ⟨noted, hyields.adapt f, hsub⟩

theorem Within.mapM {f : α → LookupM ε β} {value : α → β} {uses : α → List (Nat × String)}
    {xs : List α} (h : ∀ x ∈ xs, Within reference (f x) (value x) (uses x)) :
    Within reference (xs.mapM f) (xs.map value) (xs.flatMap uses) := by
  induction xs with
  | nil => exact .pure []
  | cons x xs ih =>
    obtain ⟨⟨first, hfirst, hsub⟩, hxs⟩ := List.forall_mem_cons.mp h
    obtain ⟨rest, hrest, hsub'⟩ := ih hxs
    rw [List.mapM_cons, List.flatMap_cons]
    refine ⟨_, hfirst.bind (hrest.map (value x :: ·)), List.append_subset.mpr ⟨?_, ?_⟩⟩
    · exact List.Subset.trans hsub (List.subset_append_left _ _)
    · exact List.Subset.trans hsub' (List.subset_append_right _ _)

theorem Runs.bind_within (h : Runs reference m fault value uses) {f : α → LookupM ε β} {value' : β}
    (h' : fault = none → Within reference (f value) value' uses) :
    Runs reference (m >>= f) fault value' uses := by
  cases fault with
  | some error => exact Fails.bind h f
  | none =>
    obtain ⟨noted, hyields, hsub⟩ := h' rfl
    exact (Yields.bind h hyields).absorb hsub

theorem Within.exec_after {m' : LookupM δ β} {value' : β} (h' : Within reference m' value' uses)
    (h : Yields reference m value uses) (state : State) (hlike : reference.Like state.registry) :
    (exec m' (exec m state).2).1 = .ok value'
      ∧ (exec m' (exec m state).2).2.registry.members = (exec m state).2.registry.members := by
  obtain ⟨noted, hyields, hsub⟩ := h'
  obtain ⟨hlike', -, hmembers⟩ := h state hlike
  obtain ⟨-, hrun, hmembers'⟩ := hyields _ hlike'
  refine ⟨hrun, ?_⟩
  rw [hmembers', hmembers, ← noteGlobals_append, noteGlobals_of_subset hsub]

end Within

theorem runs_mapM {ε α β : Type} {reference : Registry} {f : α → LookupM ε β}
    {fault : α → Option ε} {value : α → β} {uses : α → List (Nat × String)} {xs : List α}
    (h : ∀ x ∈ xs, Runs reference (f x) (fault x) (value x) (uses x)) :
    Runs reference (xs.mapM f) (xs.findSome? fault) (xs.map value) (xs.flatMap uses) := by
  induction xs with
  | nil => exact Yields.pure []
  | cons x xs ih =>
    obtain ⟨hx, hxs⟩ := List.forall_mem_cons.mp h
    rw [List.mapM_cons, ← List.singleton_append, List.findSome?_append, List.findSome?_singleton,
      List.singleton_append, List.flatMap_cons]
    apply hx.bind
    intro _
    exact (ih hxs).map (value x :: ·)

section Eval

variable {ε δ α β : Type} (reference : Registry) (m : LookupM ε α)

def eval : Except ε α :=
  (exec m ⟨reference, #[]⟩).1

def fault? : Option ε :=
  match eval reference m with
  | .ok _ => none
  | .error error => some error

def value [Inhabited α] : α :=
  match eval reference m with
  | .ok value => value
  | .error _ => default

theorem fault?_map (f : α → β) : fault? reference (f <$> m) = fault? reference m := by
  simp only [fault?, eval, exec_map]
  cases (exec m ⟨reference, #[]⟩).1 with
  | ok value => rfl
  | error error => rfl

variable {reference m} {a : α} {uses : List (Nat × String)}

theorem Fails.eval_eq {error : ε} (h : Fails reference m error) (hcoherent : reference.Coherent) :
    eval reference m = .error error :=
  (h ⟨reference, #[]⟩ ⟨hcoherent, rfl⟩).2

theorem Yields.eval_eq (h : Yields reference m a uses) (hcoherent : reference.Coherent) :
    eval reference m = .ok a :=
  (h ⟨reference, #[]⟩ ⟨hcoherent, rfl⟩).2.1

theorem Yields.value_eq [Inhabited α] (h : Yields reference m a uses)
    (hcoherent : reference.Coherent) : value reference m = a := by
  rw [value, h.eval_eq hcoherent]

theorem within_value [Inhabited α] {P : α → Prop} (hcoherent : reference.Coherent)
    (h : ∃ a, Within reference m a uses ∧ P a) :
    Within reference m (value reference m) uses ∧ P (value reference m) := by
  obtain ⟨a, ⟨noted, hyields, hsub⟩, hP⟩ := h
  rw [hyields.value_eq hcoherent]
  exact ⟨⟨noted, hyields, hsub⟩, hP⟩

def Finds (reference : Registry) (m : LookupM ε α) (P : α → Prop)
    (uses : α → List (Nat × String)) : Prop :=
  (∃ error, Fails reference m error) ∨ ∃ a, P a ∧ Yields reference m a (uses a)

variable {P : α → Prop} {usesOf : α → List (Nat × String)}

theorem Finds.of_yields (hP : P a) (h : Yields reference m a uses) (huses : uses = usesOf a) :
    Finds reference m P usesOf :=
  .inr ⟨a, hP, huses ▸ h⟩

theorem Finds.runs [Inhabited α] (h : Finds reference m P usesOf)
    (hcoherent : reference.Coherent) :
    Runs reference m (fault? reference m) (value reference m) (usesOf (value reference m)) := by
  rcases h with ⟨error, h⟩ | ⟨a, -, h⟩
  · simp only [fault?, h.eval_eq hcoherent]
    exact h
  · simp only [fault?, value, h.eval_eq hcoherent]
    exact h

theorem Finds.yields (h : Finds reference m P usesOf) (hcoherent : reference.Coherent)
    (hfault : fault? reference m = none) : ∃ a, P a ∧ Yields reference m a (usesOf a) := by
  rcases h with ⟨error, h⟩ | h
  · rw [fault?, h.eval_eq hcoherent] at hfault
    cases hfault
  · exact h

theorem Finds.of_exec (h : Finds reference m P usesOf) {state : State}
    (hlike : reference.Like state.registry) (hexec : (exec m state).1 = .ok a) : P a := by
  rcases h with ⟨error, hfails⟩ | ⟨found, hP, hyields⟩
  · rw [(hfails state hlike).2] at hexec
    cases hexec
  · rw [(hyields state hlike).2.1, Except.ok.injEq] at hexec
    exact hexec ▸ hP

theorem Finds.of_eval (h : Finds reference m P usesOf) (hcoherent : reference.Coherent)
    (heval : eval reference m = .ok a) : P a := by
  have hlike : reference.Like reference := ⟨hcoherent, rfl⟩
  exact h.of_exec hlike heval

theorem Finds.map (h : Finds reference m P usesOf) (f : α → β) {P' : β → Prop}
    {usesOf' : β → List (Nat × String)}
    (hf : ∀ a, P a → P' (f a) ∧ usesOf a = usesOf' (f a)) :
    Finds reference (f <$> m) P' usesOf' := by
  rcases h with ⟨error, h⟩ | ⟨a, hP, h⟩
  · exact .inl ⟨error, h.map f⟩
  · obtain ⟨hP', huses⟩ := hf a hP
    exact .of_yields hP' (h.map f) huses

end Eval

section Functions

def Declared (reference : Registry) (interface : Interface) : Prop :=
  ∃ protocol ∈ reference.protocols, interface ∈ protocol.interfaces.values

def useOf (current : Protocol) (family : String) : List (Nat × String) :=
  if family = current.family then [] else [(current.id, family)]

variable {reference : Registry}

theorem yields_notice {ε : Type} (n : Notice) :
    Yields reference (notice n : LookupM ε Unit) () [] := by
  intro state hstate
  exact ⟨hstate, rfl, rfl⟩

theorem yields_openNamespace (ε : Type) (family : String) :
    Yields reference (openNamespace family : LookupM ε Namespace)
      ⟨family, (Registry.ofFamily reference.protocols family).map (·.id)⟩ [] := by
  intro state hstate
  rw [openNamespace, exec_modifyGet]
  refine ⟨⟨hstate.coherent.touch family, ?_⟩, ?_, ?_⟩
  · rw [Registry.protocols_touch]
    exact hstate.protocols_eq
  · rw [hstate.coherent.namespaceOf_eq, hstate.protocols_eq]
  · exact Registry.members_touch state.registry family

theorem yields_recordReference (ε : Type) {current : Protocol}
    (hcurrent : current ∈ reference.protocols) {family : String}
    (hknown : ∃ protocol ∈ reference.protocols, protocol.family = family) :
    Yields reference (recordReference current family : LookupM ε Unit) ()
      (useOf current family) := by
  intro state hstate
  rw [← hstate.protocols_eq] at hcurrent hknown
  have hid := hstate.coherent.protocol?_id hcurrent
  rw [recordReference, exec_bind_ok (exec_get state)]
  unfold useOf
  by_cases hfamily : family = current.family
  · simp [hfamily, hstate, noteGlobals]
  · by_cases hnoted : family ∈ state.registry.globals current.id
    · -- to note it once more would change nothing, so it does no harm that it is not
      simp [hfamily, hnoted, hstate, noteGlobals_of_mem]
    · have hnew : (family != current.family
          && !(state.registry.globals current.id).contains family) = true := by
        simp [hfamily, hnoted]
      rw [if_pos hnew, if_neg hfamily]
      rw [exec_bind_ok (exec_modify state _)]
      refine ⟨⟨hstate.coherent.recordGlobal hid hfamily hknown, ?_⟩, rfl, rfl⟩
      exact (Registry.protocols_recordGlobal _ _ _).trans hstate.protocols_eq

theorem exists_of_findDeclared? {protocols : List Protocol} {name owner : String}
    {interface : Interface} (h : findDeclared? protocols name = some (owner, interface)) :
    ∃ protocol ∈ protocols, interface ∈ protocol.interfaces.values := by
  obtain ⟨protocol, hprotocol, hfound⟩ := List.exists_of_findSome?_eq_some h
  simp only [Option.bind_eq_bind, Option.pure_def, Option.bind_eq_some_iff, Option.some.injEq,
    Prod.mk.injEq] at hfound
  obtain ⟨_, hget, -, rfl⟩ := hfound
  exact ⟨protocol, hprotocol, Table.mem_values_of_get? hget⟩

theorem useOf_own (hcoherent : reference.Coherent) {current : Protocol}
    (hcurrent : current ∈ reference.protocols) {interface : Interface}
    (hinterface : interface ∈ current.interfaces.values) :
    useOf current interface.family = [] := by
  rw [(hcoherent.built_of_mem hcurrent).family_eq hinterface, useOf, if_pos rfl]

theorem finds_findInNamespace (hcoherent : reference.Coherent) {current : Protocol}
    (hcurrent : current ∈ reference.protocols) (family name : String) :
    Finds reference (findInNamespace current family name) (Declared reference)
      (fun interface => useOf current interface.family) := by
  cases hfound : findDeclared? (Registry.ofFamily reference.protocols family) name with
  | none =>
    refine .inl ⟨.unknownInterface family name, ?_⟩
    intro state hstate
    obtain ⟨hlike, hrun, -⟩ := yields_openNamespace Error family state hstate
    rw [findInNamespace, exec_bind_ok (Prod.ext hrun rfl), exec_bind_ok (exec_get _),
      hlike.coherent.protocolsOf_eq, hlike.protocols_eq, hfound]
    exact ⟨hlike, rfl⟩
  | some found =>
    obtain ⟨owner, interface⟩ := found
    obtain ⟨protocol, hprotocol, hinterface⟩ := exists_of_findDeclared? hfound
    obtain ⟨hregistered, hfamily⟩ := List.mem_filter.mp hprotocol
    rw [beq_iff_eq] at hfamily
    -- the interface is of the family that was searched, as its protocol is
    have huse : useOf current interface.family = [] ++ ([] ++ (useOf current family ++ [])) := by
      rw [(hcoherent.built_of_mem hregistered).family_eq hinterface, hfamily]
      simp
    refine .of_yields ⟨protocol, hregistered, hinterface⟩ ?_ huse.symm
    intro state hstate
    obtain ⟨hlike, hrun, hmembers⟩ := yields_openNamespace Error family state hstate
    rw [findInNamespace, exec_bind_ok (Prod.ext hrun rfl), exec_bind_ok (exec_get _),
      hlike.coherent.protocolsOf_eq, hlike.protocols_eq, hfound, noteGlobals_append, ← hmembers]
    have hrecord := yields_recordReference Error hcurrent ⟨protocol, hregistered, hfamily⟩
    exact (yields_notice _).bind (hrecord.bind (.pure interface)) _ hlike

theorem finds_findInterface (hcoherent : reference.Coherent) {current : Protocol}
    (hcurrent : current ∈ reference.protocols) (name : String) :
    Finds reference (findInterface current name) (Declared reference)
      (fun interface => useOf current interface.family) := by
  unfold findInterface
  split
  · next interface hget =>
    have hinterface := Table.mem_values_of_get? hget
    have huse := useOf_own hcoherent hcurrent hinterface
    exact .of_yields ⟨current, hcurrent, hinterface⟩ (.pure interface) huse.symm
  · split
    · exact .inl ⟨_, .throw _⟩
    · split
      · exact .inl ⟨_, .throw _⟩
      · exact finds_findInNamespace hcoherent hcurrent _ name

theorem Declared.exists_number_eq (hcoherent : reference.Coherent) {interface : Interface}
    (h : Declared reference interface) :
    ∃ protocol ∈ reference.protocols, interface.id.protocol = protocol.id := by
  obtain ⟨protocol, hprotocol, hmem⟩ := h
  obtain ⟨index, hindex⟩ := (Table.mem_values_iff _ interface).mp hmem
  have hbuilt := (hcoherent.built_of_mem hprotocol).interface index interface hindex
  exact ⟨protocol, hprotocol, by rw [hbuilt.1.id_eq]⟩

structure Registered (reference : Registry) (place : Place) : Prop where
  protocol_mem : place.protocol ∈ reference.protocols
  interface_mem : place.interface ∈ place.protocol.interfaces.values

theorem Registered.built (hcoherent : reference.Coherent) {place : Place}
    (h : Registered reference place) : place.protocol.Built place.protocol.id :=
  hcoherent.built_of_mem h.protocol_mem

theorem Registered.interface_built (hcoherent : reference.Coherent) {place : Place}
    (h : Registered reference place) : ∃ id, place.interface.Built id := by
  obtain ⟨index, hindex⟩ := (Table.mem_values_iff _ place.interface).mp h.interface_mem
  exact ⟨_, ((h.built hcoherent).interface index place.interface hindex).1⟩

theorem Declared.built (hcoherent : reference.Coherent) {interface : Interface}
    (h : Declared reference interface) : ∃ id, interface.Built id := by
  obtain ⟨protocol, hprotocol, hmem⟩ := h
  have hplace : Registered reference ⟨protocol, interface⟩ := ⟨hprotocol, hmem⟩
  exact hplace.interface_built hcoherent

theorem finds_enumOf (reference : Registry) (owner : Interface) (name : String) :
    Finds reference (enumOf owner name) (fun found => found.1 = owner) (fun _ => []) := by
  unfold enumOf
  split
  · exact .of_yields rfl (.pure _) rfl
  · exact .inl ⟨_, .throw _⟩

theorem finds_findEnum (hcoherent : reference.Coherent) {place : Place}
    (hplace : Registered reference place) (name : String) :
    Finds reference (findEnum place name) (fun found => Declared reference found.1)
      (fun found => useOf place.protocol found.1.family) := by
  unfold findEnum
  split
  · next enum _ =>
    have hown := useOf_own hcoherent hplace.protocol_mem hplace.interface_mem
    rcases finds_enumOf reference place.interface (String.ofList enum) with
      ⟨error, h⟩ | ⟨found, hfound, h⟩
    · exact .inl ⟨error, h⟩
    · refine .of_yields ⟨place.protocol, hplace.protocol_mem, ?_⟩ h ?_
      · rw [hfound]
        exact hplace.interface_mem
      · rw [hfound, hown]
  · next interface enum _ =>
    rcases finds_findInterface hcoherent hplace.protocol_mem (String.ofList interface) with
      ⟨error, h⟩ | ⟨owner, howner, h⟩
    · exact .inl ⟨error, h.bind _⟩
    · rcases finds_enumOf reference owner (String.ofList enum) with
        ⟨error, h'⟩ | ⟨found, rfl, h'⟩
      · exact .inl ⟨error, h.bind_fails h'⟩
      · exact .of_yields howner (h.bind h') (List.append_nil _)
  · exact .inl ⟨_, .throw _⟩

end Functions

end Lookup
end Waybind
