import Mathlib

/-!
# Related runs

Two fallible computations that end the same way: both fail, with errors that are related, or
both succeed, with values that are related. The rules follow the ways in which a run is put
together.
-/

namespace Json

universe u

variable {ε ε' α α' β β' : Type u}

/-- The parts of a run that succeeds have succeeded. -/
theorem bind_eq_ok {x : Except ε α} {f : α → Except ε β} {b : β} (h : x.bind f = .ok b) :
    ∃ a, x = .ok a ∧ f a = .ok b := by
  cases x with
  | error e => cases h
  | ok a => exact ⟨a, rfl, h⟩

theorem map_eq_ok {x : Except ε α} {f : α → β} {b : β} (h : x.map f = .ok b) :
    ∃ a, x = .ok a ∧ f a = b := by
  cases x with
  | error e => cases h
  | ok a => exact ⟨a, rfl, Except.ok.inj h⟩

/-- Errors are related by `E`, values by `R`. -/
inductive Related (E : ε → ε' → Prop) (R : α → α' → Prop) : Except ε α → Except ε' α' → Prop
  | error {e : ε} {e' : ε'} (h : E e e') : Related E R (.error e) (.error e')
  | ok {a : α} {a' : α'} (h : R a a') : Related E R (.ok a) (.ok a')

variable {E : ε → ε' → Prop} {R : α → α' → Prop} {S : β → β' → Prop} {x : Except ε α}
  {x' : Except ε' α'}

theorem Related.bind {f : α → Except ε β} {f' : α' → Except ε' β'} (h : Related E R x x')
    (hf : ∀ a a', R a a' → Related E S (f a) (f' a')) :
    Related E S (x.bind f) (x'.bind f') := by
  cases h with
  | error he => exact .error he
  | ok ha => exact hf _ _ ha

/-- The rule with the result of the second computation at hand. -/
theorem Related.bind_eq {f : α → Except ε β} {f' : α' → Except ε' β'} (h : Related E R x x')
    (hf : ∀ a a', x' = .ok a' → R a a' → Related E S (f a) (f' a')) :
    Related E S (x.bind f) (x'.bind f') := by
  cases h with
  | error he => exact .error he
  | ok ha => exact hf _ _ rfl ha

theorem Related.map {f : α → β} {f' : α' → β'} (h : Related E R x x')
    (hf : ∀ a a', R a a' → S (f a) (f' a')) : Related E S (x.map f) (x'.map f') := by
  cases h with
  | error he => exact .error he
  | ok ha => exact .ok (hf _ _ ha)

theorem Related.imp {R' : α → α' → Prop} (h : Related E R x x')
    (hR : ∀ a a', R a a' → R' a a') : Related E R' x x' := by
  cases h with
  | error he => exact .error he
  | ok ha => exact .ok (hR _ _ ha)

/-- The same question asked on both sides. -/
theorem Related.ite {p p' : Prop} [Decidable p] [Decidable p'] {y : Except ε α}
    {y' : Except ε' α'} (hp : p ↔ p') (hx : p → Related E R x x')
    (hy : ¬ p → Related E R y y') :
    Related E R (if p then x else y) (if p' then x' else y') := by
  by_cases h : p
  · rw [if_pos h, if_pos (hp.mp h)]
    exact hx h
  · rw [if_neg h, if_neg fun h' => h (hp.mpr h')]
    exact hy h

/-- Whenever the second computation succeeds, the first one does, with a related value. -/
def Follows (R : α → α' → Prop) (x : Except ε α) (x' : Except ε' α') : Prop :=
  ∀ a', x' = .ok a' → ∃ a, x = .ok a ∧ R a a'

theorem Follows.ok {a : α} {a' : α'} (h : R a a') :
    Follows R (.ok a : Except ε α) (.ok a' : Except ε' α') := by
  rintro b' ⟨⟩
  exact ⟨a, rfl, h⟩

theorem Follows.error (x : Except ε α) (e : ε') : Follows R x (.error e) := by
  rintro b' ⟨⟩

theorem Follows.bind {f : α → Except ε β} {f' : α' → Except ε' β'} (h : Follows R x x')
    (hf : ∀ a a', R a a' → Follows S (f a) (f' a')) : Follows S (x.bind f) (x'.bind f') := by
  cases x' with
  | error e => exact Follows.error _ e
  | ok a' =>
      obtain ⟨a, rfl, ha⟩ := h a' rfl
      exact hf a a' ha

theorem Follows.map {f : α → β} {f' : α' → β'} (h : Follows R x x')
    (hf : ∀ a a', R a a' → S (f a) (f' a')) : Follows S (x.map f) (x'.map f') := by
  cases x' with
  | error e => exact Follows.error _ e
  | ok a' =>
      obtain ⟨a, rfl, ha⟩ := h a' rfl
      exact .ok (hf a a' ha)

theorem Follows.ite {p : Prop} [Decidable p] {y : Except ε α} {y' : Except ε' α'}
    (hx : p → Follows R x x') (hy : ¬ p → Follows R y y') :
    Follows R (if p then x else y) (if p then x' else y') := by
  by_cases h : p
  · rw [if_pos h, if_pos h]
    exact hx h
  · rw [if_neg h, if_neg h]
    exact hy h

end Json
