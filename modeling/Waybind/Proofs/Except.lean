import Mathlib.Data.List.Induction

/-!
This module contains laws of computations that may fail: when they succeed, and with what. It is
followed by laws of those that also have a state.
-/

namespace Waybind
namespace Except

variable {ε δ α β : Type}

@[simp]
theorem pure_eq_ok_iff (a b : α) : (pure a : Except ε α) = .ok b ↔ a = b := by
  simp [pure, Except.pure]

@[simp]
theorem bind_eq_ok_iff (x : Except ε α) (f : α → Except ε β) (b : β) :
    x >>= f = .ok b ↔ ∃ a, x = .ok a ∧ f a = .ok b := by
  cases x with
  | error e => simp [bind, Except.bind]
  | ok a => simp [bind, Except.bind]

@[simp]
theorem bind_eq_error_iff (x : Except ε α) (f : α → Except ε β) (e : ε) :
    x >>= f = .error e ↔ x = .error e ∨ ∃ a, x = .ok a ∧ f a = .error e := by
  cases x with
  | error e => simp [bind, Except.bind]
  | ok a => simp [bind, Except.bind]

@[simp]
theorem map_eq_ok_iff (f : α → β) (x : Except ε α) (b : β) :
    f <$> x = .ok b ↔ ∃ a, x = .ok a ∧ f a = b := by
  cases x with
  | error e => simp [Functor.map, Except.map]
  | ok a => simp [Functor.map, Except.map]

@[simp]
theorem map_eq_error_iff (f : α → β) (x : Except ε α) (e : ε) :
    f <$> x = .error e ↔ x = .error e := by
  cases x with
  | error e => simp [Functor.map, Except.map]
  | ok a => simp [Functor.map, Except.map]

@[simp]
theorem mapError_eq_ok_iff (f : ε → δ) (x : Except ε α) (a : α) :
    x.mapError f = .ok a ↔ x = .ok a := by
  cases x with
  | error e => simp [Except.mapError]
  | ok a => simp [Except.mapError]

@[simp]
theorem mapError_eq_error_iff (f : ε → δ) (x : Except ε α) (e : δ) :
    x.mapError f = .error e ↔ ∃ e', x = .error e' ∧ f e' = e := by
  cases x with
  | error e' => simp [Except.mapError]
  | ok a => simp [Except.mapError]

@[simp]
theorem toOption_eq_some_iff (x : Except ε α) (a : α) : x.toOption = some a ↔ x = .ok a := by
  cases x with
  | error e => simp [Except.toOption]
  | ok a => simp [Except.toOption]

section Fold

variable {f : β → α → Except ε β} {init b : β} {xs : List α}

theorem foldlM_invariant {P : List α → β → Prop} (nil : P [] init)
    (snoc : ∀ pre x b b', P pre b → f b x = .ok b' → P (pre ++ [x]) b')
    (h : xs.foldlM f init = .ok b) : P xs b := by
  induction xs using List.reverseRecOn generalizing b with
  | nil =>
    rw [List.foldlM_nil, pure_eq_ok_iff] at h
    rw [← h]
    exact nil
  | append_singleton pre x ih =>
    simp only [List.foldlM_append, List.foldlM_cons, List.foldlM_nil, bind_pure,
      bind_eq_ok_iff] at h
    obtain ⟨b', hpre, hx⟩ := h
    exact snoc pre x b' b (ih hpre) hx

theorem foldlM_eq_ok_of_step
    (step : ∀ pre x post b, xs = pre ++ x :: post → pre.foldlM f init = .ok b →
      ∃ b', f b x = .ok b') :
    ∃ b, xs.foldlM f init = .ok b := by
  -- every part of the run comes to its end, by induction on how far it has got
  have hpre : ∀ pre post, xs = pre ++ post → ∃ b, pre.foldlM f init = .ok b := by
    intro pre
    induction pre using List.reverseRecOn with
    | nil =>
      intro post _
      exact ⟨init, rfl⟩
    | append_singleton pre x ih =>
      intro post hxs
      rw [List.append_assoc, List.singleton_append] at hxs
      obtain ⟨b, hb⟩ := ih (x :: post) hxs
      obtain ⟨b', hb'⟩ := step pre x post b hxs hb
      refine ⟨b', ?_⟩
      simp only [List.foldlM_append, List.foldlM_cons, List.foldlM_nil, bind_pure, bind_eq_ok_iff]
      exact ⟨b, hb, hb'⟩
  exact hpre xs [] (by simp)

theorem foldlM_eq_error_of_step {pre : List α} {x : α} {b : β} {e : ε}
    (hpre : pre.foldlM f init = .ok b) (hx : f b x = .error e) (post : List α) :
    (pre ++ x :: post).foldlM f init = .error e := by
  rw [List.foldlM_append, hpre]
  simp only [List.foldlM_cons, bind, Except.bind, hx]

theorem exists_of_foldlM_eq_error {e : ε} (h : xs.foldlM f init = .error e) :
    ∃ pre x post b, xs = pre ++ x :: post ∧ pre.foldlM f init = .ok b ∧ f b x = .error e := by
  induction xs generalizing init with
  | nil => cases h
  | cons x xs ih =>
    rw [List.foldlM_cons] at h
    cases hx : f init x with
    | error e' =>
      rw [hx] at h
      cases h
      exact ⟨[], x, xs, init, rfl, rfl, hx⟩
    | ok b =>
      rw [hx] at h
      obtain ⟨pre, y, post, b', rfl, hpre, hy⟩ := ih h
      refine ⟨x :: pre, y, post, b', rfl, ?_, hy⟩
      rw [List.foldlM_cons, hx]
      exact hpre

theorem foldlM_map {γ : Type} {f' : γ → α → Except ε γ} {g : β → γ}
    (step : ∀ b x, f' (g b) x = (f b x).map g) (xs : List α) (init : β) :
    xs.foldlM f' (g init) = (xs.foldlM f init).map g := by
  induction xs generalizing init with
  | nil => rfl
  | cons x xs ih =>
    rw [List.foldlM_cons, List.foldlM_cons, step]
    cases f init x with
    | error e => rfl
    | ok b => exact ih b

end Fold

end Except

def exec {ε σ α : Type} (m : ExceptT ε (StateM σ) α) (state : σ) : Except ε α × σ :=
  m.run state

section Exec

variable {ε ε' σ α β : Type} (m : ExceptT ε (StateM σ) α) (s : σ)

theorem exec_injective : Function.Injective (exec : ExceptT ε (StateM σ) α → _) :=
  fun _ _ h => h

@[simp]
theorem exec_pure (a : α) : exec (pure a : ExceptT ε (StateM σ) α) s = (.ok a, s) := by
  rfl

@[simp]
theorem exec_get : exec (get : ExceptT ε (StateM σ) σ) s = (.ok s, s) := by
  rfl

@[simp]
theorem exec_modify (f : σ → σ) :
    exec (modify f : ExceptT ε (StateM σ) Unit) s = (.ok (), f s) := by
  rfl

@[simp]
theorem exec_modifyGet (f : σ → α × σ) :
    exec (modifyGet f : ExceptT ε (StateM σ) α) s = (.ok (f s).1, (f s).2) := by
  rfl

theorem exec_bind_ok {m : ExceptT ε (StateM σ) α} {s s' : σ} {a : α} (h : exec m s = (.ok a, s'))
    (f : α → ExceptT ε (StateM σ) β) : exec (m >>= f) s = exec (f a) s' := by
  simp only [exec, ExceptT.run, bind, ExceptT.bind, ExceptT.mk, StateT.bind] at h ⊢
  rw [h]
  rfl

theorem exec_bind_error {m : ExceptT ε (StateM σ) α} {s s' : σ} {error : ε}
    (h : exec m s = (.error error, s')) (f : α → ExceptT ε (StateM σ) β) :
    exec (m >>= f) s = (.error error, s') := by
  simp only [exec, ExceptT.run, bind, ExceptT.bind, ExceptT.mk, StateT.bind] at h ⊢
  rw [h]
  rfl

theorem exec_map (f : α → β) : exec (f <$> m) s = ((exec m s).1.map f, (exec m s).2) := by
  rw [← bind_pure_comp]
  rcases h : exec m s with ⟨_ | _, s'⟩
  · exact exec_bind_error h _
  · exact exec_bind_ok h _

theorem exec_adapt (f : ε → ε') :
    exec (ExceptT.adapt f m) s = ((exec m s).1.mapError f, (exec m s).2) := by
  rfl

end Exec
end Waybind
