import Mathlib.Logic.Function.Basic

/-!
# The wait set of a monitor

`notify()` picks one thread of the wait set, any one, and does nothing when the
set is empty.  Threads are indexed by `ι`; what a thread is doing is a `τ`.
-/

namespace Kbox.Framework

variable {ι τ : Type} [DecidableEq ι]

/-- `Notify Waits wake t b t'`: where the threads `t` can be after `if (b) notify();`. -/
inductive Notify (Waits : τ → Prop) (wake : τ → τ) (t : ι → τ) : Bool → (ι → τ) → Prop
  | silent : Notify Waits wake t false t
  | nobody : (∀ i, ¬ Waits (t i)) → Notify Waits wake t true t
  | wakes {i : ι} : Waits (t i) →
      Notify Waits wake t true (Function.update t i (wake (t i)))

variable {Waits : τ → Prop} {wake : τ → τ} {t t' : ι → τ} {b : Bool}

/-- What every thread satisfies, and waking keeps, holds after a notification. -/
theorem Notify.forall {P : τ → Prop} (h : Notify Waits wake t b t')
    (hwake : ∀ x, P x → P (wake x)) (hP : ∀ i, P (t i)) (i : ι) : P (t' i) := by
  cases h with
  | silent => exact hP i
  | nobody _ => exact hP i
  | @wakes j _ =>
      by_cases hij : i = j
      · subst hij
        rw [Function.update_self]
        exact hwake _ (hP i)
      · rw [Function.update_of_ne hij]
        exact hP i

theorem Notify.of_nobody (h : ∀ i, ¬ Waits (t i)) (b : Bool) : Notify Waits wake t b t := by
  cases b
  · exact .silent
  · exact .nobody h

/-- A thread is left as it was, or woken. -/
theorem Notify.same_or_woken (h : Notify Waits wake t b t') (i : ι) :
    t' i = t i ∨ (b = true ∧ Waits (t i) ∧ t' i = wake (t i)) := by
  cases h with
  | silent => exact .inl rfl
  | nobody _ => exact .inl rfl
  | @wakes j hj =>
      by_cases hij : i = j
      · subst hij
        exact .inr ⟨rfl, hj, Function.update_self ..⟩
      · exact .inl (Function.update_of_ne hij ..)

theorem Notify.eq_of_silent (h : Notify Waits wake t false t') : t' = t := by
  cases h
  rfl

/-- The only thread in the wait set is the one woken. -/
theorem Notify.wakes_only (h : Notify Waits wake t true t') {i : ι} (hi : Waits (t i))
    (honly : ∀ j, Waits (t j) → j = i) : t' i = wake (t i) := by
  cases h with
  | nobody hnone => exact absurd hi (hnone i)
  | @wakes j hj =>
      obtain rfl := honly j hj
      exact Function.update_self ..

end Kbox.Framework
