import Mathlib.Analysis.Real.Sqrt
import Kbox.Framework.Parabola

/-!
# Roots between two samples

A parabola that is negative at -1 and 0 and positive at 1 has one root between 0 and 1.  Which of
the two roots it is depends on the sign of the square term.
-/

namespace Kbox.Framework.Parabola

noncomputable section

def discriminant (A B C : ℝ) : ℝ := B * B - 4 * A * C

/-- The distance of the roots from the vertex. -/
def spread (A B C : ℝ) : ℝ := 1 / 2 * √(discriminant A B C) / |A|

variable {A B C : ℝ}

/-- A parabola that opens upwards has its greater root there. -/
theorem root_of_square_pos (hA : 0 < A) (hC : C < 0) (hend : 0 < A + B + C) :
    0 ≤ discriminant A B C ∧ 0 < -B / (2 * A) + spread A B C ∧
      -B / (2 * A) + spread A B C < 1 := by
  have hprod : A * C < 0 := mul_neg_of_pos_of_neg hA hC
  have hdisc : B * B < discriminant A B C := by
    unfold discriminant
    linarith
  have hnonneg : 0 ≤ discriminant A B C := (mul_self_nonneg B).trans hdisc.le
  have hsum : -B / (2 * A) + spread A B C = (√(discriminant A B C) - B) / (2 * A) := by
    unfold spread
    rw [abs_of_pos hA]
    field_simp
    ring
  have hlower : B < √(discriminant A B C) := by
    refine lt_of_abs_lt (Real.lt_sqrt_of_sq_lt ?_)
    rw [sq_abs, pow_two]
    exact hdisc
  have hupper : √(discriminant A B C) < 2 * A + B := by
    refine (Real.sqrt_lt' (by linarith)).mpr ?_
    have hgap : 0 < A * (A + B + C) := mul_pos hA hend
    unfold discriminant
    nlinarith only [hgap]
  have htwo : 0 < 2 * A := by linarith
  refine ⟨hnonneg, ?_, ?_⟩
  · rw [hsum]
    exact div_pos (by linarith) htwo
  · rw [hsum, div_lt_one htwo]
    linarith

/-- One that opens downwards has its smaller root there, and the other one behind 1. -/
theorem root_of_square_neg (hA : A < 0) (hC : C < 0) (hend : 0 < A + B + C) :
    0 ≤ discriminant A B C ∧ 0 < -B / (2 * A) - spread A B C ∧
      -B / (2 * A) - spread A B C < 1 ∧ 1 < -B / (2 * A) + spread A B C := by
  have hB : 0 < B := by linarith
  have hprod : 0 < A * C := mul_pos_of_neg_of_neg hA hC
  have hgap : 0 < -A * (A + B + C) := mul_pos (by linarith) hend
  -- the square of the distance between 1 and the vertex
  have hsquare : (B + 2 * A) ^ 2 < discriminant A B C := by
    unfold discriminant
    nlinarith only [hgap]
  have hnonneg : 0 ≤ discriminant A B C := (sq_nonneg _).trans hsquare.le
  have hsmaller : -B / (2 * A) - spread A B C = (B - √(discriminant A B C)) / (2 * -A) := by
    unfold spread
    rw [abs_of_neg hA]
    field_simp
    ring
  have hgreater : -B / (2 * A) + spread A B C = (B + √(discriminant A B C)) / (2 * -A) := by
    unfold spread
    rw [abs_of_neg hA]
    field_simp
    ring
  have hbelow : √(discriminant A B C) < B := by
    refine (Real.sqrt_lt' hB).mpr ?_
    unfold discriminant
    linarith
  have habs : |B + 2 * A| < √(discriminant A B C) :=
    Real.lt_sqrt_of_sq_lt (by rw [sq_abs]; exact hsquare)
  obtain ⟨hleft, hright⟩ := abs_lt.mp habs
  have htwo : 0 < 2 * -A := by linarith
  refine ⟨hnonneg, ?_, ?_, ?_⟩
  · rw [hsmaller]
    exact div_pos (by linarith) htwo
  · rw [hsmaller, div_lt_one htwo]
    linarith
  · rw [hgreater, one_lt_div htwo]
    linarith

end

end Kbox.Framework.Parabola
