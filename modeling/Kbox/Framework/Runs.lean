import Mathlib.Logic.Relation

/-!
# Invariants and simulations of step relations
-/

namespace Kbox.Framework

open Relation (ReflTransGen)

variable {σ τ : Type} {R : σ → σ → Prop} {T : τ → τ → Prop}

/-- What holds at first and is kept by each step holds in every reachable state. -/
theorem invariant_of_step {I : σ → Prop} {s s' : σ} (h0 : I s)
    (hstep : ∀ s s', I s → R s s' → I s') (h : ReflTransGen R s s') : I s' := by
  induction h with
  | refl => exact h0
  | tail _ hlast ih => exact hstep _ _ ih hlast

/-- Every step of `R` is a step of `T` on the abstractions, as long as the concrete
and the abstract invariant hold; then every run of `R` is a run of `T`. -/
theorem simulation {abs : σ → τ} {Valid : σ → Prop} {Inv : τ → Prop} {s s' : σ}
    (hinv : ∀ t t', Inv t → T t t' → Inv t')
    (hsim : ∀ s s', Valid s → Inv (abs s) → R s s' → Valid s' ∧ T (abs s) (abs s'))
    (hv : Valid s) (hi : Inv (abs s)) (h : ReflTransGen R s s') :
    Valid s' ∧ Inv (abs s') ∧ ReflTransGen T (abs s) (abs s') := by
  induction h with
  | refl => exact ⟨hv, hi, .refl⟩
  | tail _ hlast ih =>
      obtain ⟨hv', hi', hrun⟩ := ih
      obtain ⟨hv'', ht⟩ := hsim _ _ hv' hi' hlast
      exact ⟨hv'', hinv _ _ hi' ht, hrun.tail ht⟩

end Kbox.Framework
