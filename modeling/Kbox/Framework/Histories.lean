import Kbox.Framework.Exceptions
import Mathlib.Data.List.Induction

/-!
# Histories of calls

An object is used by one call after another, and what it has become is stated against
the whole history: `P es s` relates the calls `es` made so far to the state `s`.
Such a relation is established one call at a time.
-/

namespace Kbox.Framework

variable {ε σ E : Type} {P : List E → σ → Prop} {s t : σ}

/-! ## §1  Calls that may throw -/

/-- The calls in order; a throw ends them. -/
def runAll (perform : E → EStateM ε σ PUnit) : List E → EStateM ε σ PUnit
  | [] => pure ⟨⟩
  | e :: es => do
    perform e
    runAll perform es

variable {perform : E → EStateM ε σ PUnit}

theorem runAll_nil_eq_ok (h : runAll perform [] s = .ok ⟨⟩ t) : t = s := by
  cases h
  rfl

/-- The last call of a history that returns. -/
theorem runAll_concat {es : List E} {e : E} (h : runAll perform (es ++ [e]) s = .ok ⟨⟩ t) :
    ∃ u, runAll perform es s = .ok ⟨⟩ u ∧ perform e u = .ok ⟨⟩ t := by
  induction es generalizing s with
  | nil =>
      obtain ⟨_, u, he, hnil⟩ := bind_eq_ok h
      rw [runAll_nil_eq_ok hnil]
      exact ⟨s, rfl, he⟩
  | cons c es ih =>
      obtain ⟨_, u, hc, hes⟩ := bind_eq_ok h
      obtain ⟨v, hv, he⟩ := ih hes
      refine ⟨v, ?_, he⟩
      simpa only [runAll, bind, EStateM.bind, hc] using hv

/-- What holds before the first call, and is carried over each call that returns, holds
of every history that returns. -/
theorem runAll_history (h0 : P [] s)
    (hstep : ∀ es e u v, P es u → perform e u = .ok ⟨⟩ v → P (es ++ [e]) v) {es : List E}
    (h : runAll perform es s = .ok ⟨⟩ t) : P es t := by
  induction es using List.reverseRecOn generalizing t with
  | nil =>
      rw [runAll_nil_eq_ok h]
      exact h0
  | append_singleton es e ih =>
      obtain ⟨u, hes, he⟩ := runAll_concat h
      exact hstep es e u t (ih hes) he

/-! ## §2  Calls that return -/

theorem foldl_history {f : σ → E → σ} (h0 : P [] s)
    (hstep : ∀ es e u, P es u → P (es ++ [e]) (f u e)) (es : List E) :
    P es (es.foldl f s) := by
  induction es using List.reverseRecOn with
  | nil => exact h0
  | append_singleton es e ih =>
      rw [List.foldl_append]
      exact hstep es e _ ih

end Kbox.Framework
