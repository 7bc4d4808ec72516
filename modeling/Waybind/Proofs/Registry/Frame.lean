import Waybind.Proofs.Except
import Waybind.Proofs.Registry.Coherence
import Waybind.Registry.Lookup

/-!
This module contains what computations leave alone, whether they succeed or fail. A lookup from a
protocol changes no member but that of the protocol, and namespaces that it brings into being are
empty, so that the families stay the same.
-/

namespace Waybind

structure Registry.Beside (numbers : List Nat) (before after : Registry) : Prop where
  families_eq : after.families = before.families
  members_eq : ∀ number ∉ numbers, after.members[number]? = before.members[number]?

namespace Registry.Beside

variable {numbers numbers' : List Nat} {first second third : Registry}

theorem refl (numbers : List Nat) (registry : Registry) : Beside numbers registry registry :=
  ⟨rfl, fun _ _ => rfl⟩

theorem trans (h : Beside numbers first second) (h' : Beside numbers second third) :
    Beside numbers first third where
  families_eq := h'.families_eq.trans h.families_eq
  members_eq number hnumber := (h'.members_eq number hnumber).trans (h.members_eq number hnumber)

theorem mono (h : Beside numbers first second) (hsub : numbers ⊆ numbers') :
    Beside numbers' first second where
  families_eq := h.families_eq
  members_eq number hnumber := h.members_eq number fun hmem => hnumber (hsub hmem)

theorem touch (numbers : List Nat) (registry : Registry) (family : String) :
    Beside numbers registry (registry.touch family) where
  families_eq := by
    unfold Registry.touch
    split
    · rfl
    · simp [families, Table.values]
  members_eq := by simp

theorem recordGlobal (registry : Registry) (id : Nat) (family : String) :
    Beside [id] registry (registry.recordGlobal id family) where
  families_eq := rfl
  members_eq := by
    intro number hnumber
    rw [List.mem_singleton] at hnumber
    simp [getElem?_members_recordGlobal, Ne.symm hnumber]

end Registry.Beside

section Rules

variable {ε δ σ α β : Type} {view : σ → Registry} {numbers numbers' : List Nat}

/--
A computation on states with a registry changes no members but those with some numbers.
-/
def ConfinedTo (numbers : List Nat) (view : σ → Registry) (m : ExceptT ε (StateM σ) α) : Prop :=
  ∀ state, Registry.Beside numbers (view state) (view (exec m state).2)

variable {m : ExceptT ε (StateM σ) α}

theorem ConfinedTo.mono (h : ConfinedTo numbers view m) (hsub : numbers ⊆ numbers') :
    ConfinedTo numbers' view m := by
  intro state
  exact (h state).mono hsub

theorem ConfinedTo.pure (a : α) :
    ConfinedTo numbers view (Pure.pure a : ExceptT ε (StateM σ) α) := by
  intro state
  exact .refl numbers _

theorem ConfinedTo.get : ConfinedTo numbers view (MonadState.get : ExceptT ε (StateM σ) σ) := by
  intro state
  exact .refl numbers _

theorem ConfinedTo.throw (error : ε) :
    ConfinedTo numbers view (MonadExcept.throw error : ExceptT ε (StateM σ) α) := by
  intro state
  exact .refl numbers _

theorem ConfinedTo.bind (h : ConfinedTo numbers view m) {f : α → ExceptT ε (StateM σ) β}
    (h' : ∀ a, ConfinedTo numbers view (f a)) : ConfinedTo numbers view (m >>= f) := by
  intro state
  have hm := h state
  rcases hrun : exec m state with ⟨error | a, state'⟩
  · rw [exec_bind_error hrun]
    rwa [hrun] at hm
  · rw [exec_bind_ok hrun]
    rw [hrun] at hm
    exact hm.trans (h' a state')

theorem ConfinedTo.map (h : ConfinedTo numbers view m) (f : α → β) :
    ConfinedTo numbers view (f <$> m) := by
  rw [← bind_pure_comp]
  exact h.bind fun a => .pure (f a)

theorem ConfinedTo.adapt (h : ConfinedTo numbers view m) (f : ε → δ) :
    ConfinedTo numbers view (ExceptT.adapt f m) := by
  intro state
  rw [exec_adapt]
  exact h state

theorem ConfinedTo.mapM {f : α → ExceptT ε (StateM σ) β} {xs : List α}
    (h : ∀ x ∈ xs, ConfinedTo numbers view (f x)) : ConfinedTo numbers view (xs.mapM f) := by
  induction xs with
  | nil => exact .pure []
  | cons x xs ih =>
    obtain ⟨hx, hxs⟩ := List.forall_mem_cons.mp h
    rw [List.mapM_cons]
    exact hx.bind fun y => (ih hxs).map (y :: ·)

theorem ConfinedTo.forM {f : α → ExceptT ε (StateM σ) Unit} {xs : List α}
    (h : ∀ x ∈ xs, ConfinedTo numbers view (f x)) : ConfinedTo numbers view (xs.forM f) := by
  induction xs with
  | nil => exact .pure ()
  | cons x xs ih =>
    obtain ⟨hx, hxs⟩ := List.forall_mem_cons.mp h
    exact hx.bind fun _ => ih hxs

end Rules

namespace Lookup

abbrev From {ε α : Type} (protocol : Protocol) (m : LookupM ε α) : Prop :=
  ConfinedTo [protocol.id] State.registry m

theorem confinedTo_notice {ε : Type} (numbers : List Nat) (n : Notice) :
    ConfinedTo numbers State.registry (notice n : LookupM ε Unit) := by
  intro state
  exact .refl numbers _

theorem confinedTo_openNamespace (ε : Type) (numbers : List Nat) (family : String) :
    ConfinedTo numbers State.registry (openNamespace family : LookupM ε Namespace) := by
  intro state
  exact .touch numbers state.registry family

theorem confinedTo_namespaceGlobals (ε : Type) (numbers : List Nat) (family : String) :
    ConfinedTo numbers State.registry (namespaceGlobals family : LookupM ε (List String)) := by
  intro state
  exact .touch numbers state.registry family

theorem from_recordReference (ε : Type) (current : Protocol) (family : String) :
    From current (recordReference current family : LookupM ε Unit) := by
  intro state
  rw [recordReference, exec_bind_ok (exec_get state)]
  split
  · exact .recordGlobal state.registry current.id family
  · exact .refl _ _

theorem from_findInNamespace (current : Protocol) (family name : String) :
    From current (findInNamespace current family name) := by
  apply (confinedTo_openNamespace Error _ family).bind
  intro _
  apply ConfinedTo.get.bind
  intro state
  split
  · exact .throw _
  · apply (confinedTo_notice _ _).bind
    intro _
    exact (from_recordReference Error current family).bind fun _ => .pure _

theorem from_findInterface (current : Protocol) (name : String) :
    From current (findInterface current name) := by
  unfold findInterface
  split
  · exact .pure _
  · split
    · exact .throw _
    · split
      · exact .throw _
      · exact from_findInNamespace current _ name

theorem from_enumOf (current : Protocol) (owner : Interface) (name : String) :
    From current (enumOf owner name) := by
  unfold enumOf
  split
  · exact .pure _
  · exact .throw _

theorem from_findEnum (place : Place) (name : String) :
    From place.protocol (findEnum place name) := by
  unfold findEnum
  split
  · exact from_enumOf place.protocol place.interface _
  · exact (from_findInterface place.protocol _).bind fun owner =>
      from_enumOf place.protocol owner _
  · exact .throw _

end Lookup
end Waybind
