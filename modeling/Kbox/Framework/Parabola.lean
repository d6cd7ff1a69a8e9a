import Mathlib.Algebra.Order.Field.Basic
import Mathlib.Tactic.FieldSimp
import Mathlib.Tactic.Linarith
import Mathlib.Tactic.Ring

/-!
# The parabola through three samples

Three values at -1, 0 and 1 belong to one parabola.  Around a strict extremum its vertex is less
than half a step away from the sample in the middle.
-/

namespace Kbox.Framework.Parabola

/-- The numerals 2 and 4 of the formulas, by one name each. -/
scoped instance two_atLeastTwo : Nat.AtLeastTwo 2 := ⟨Nat.le_refl 2⟩

scoped instance four_atLeastTwo : Nat.AtLeastTwo 4 := ⟨by decide⟩

variable {K : Type} [Field K] [LinearOrder K] [IsStrictOrderedRing K]

/-- The coefficients of the square and of the linear term. -/
def square (ym y0 yp : K) : K := 1 / 2 * (ym + yp) - y0

def linear (ym yp : K) : K := 1 / 2 * (yp - ym)

/-- `a` is the vertex of the parabola through the three points. -/
def IsVertex (x0 x1 x2 y0 y1 y2 a : K) : Prop :=
  ∃ p q r, p ≠ 0 ∧ p * x0 ^ 2 + q * x0 + r = y0 ∧ p * x1 ^ 2 + q * x1 + r = y1 ∧
    p * x2 ^ 2 + q * x2 + r = y2 ∧ 2 * p * a + q = 0

/-- The vertex, in steps from the middle. -/
def vertex (ym y0 yp : K) : K := -linear ym yp / (2 * square ym y0 yp)

variable {ym y0 yp : K}

/-- The sample in the middle is larger than both others, or smaller. -/
def Extremum (ym y0 yp : K) : Prop := (ym < y0 ∧ yp < y0) ∨ (y0 < ym ∧ y0 < yp)

theorem abs_linear_lt (h : Extremum ym y0 yp) : |linear ym yp| < |square ym y0 yp| := by
  unfold linear square
  rcases h with ⟨hm, hp⟩ | ⟨hm, hp⟩
  · rw [abs_of_neg (show 1 / 2 * (ym + yp) - y0 < 0 by linarith), abs_lt]
    constructor <;> linarith
  · rw [abs_of_pos (show 0 < 1 / 2 * (ym + yp) - y0 by linarith), abs_lt]
    constructor <;> linarith

theorem square_ne_zero (h : Extremum ym y0 yp) : square ym y0 yp ≠ 0 :=
  abs_pos.mp ((abs_nonneg _).trans_lt (abs_linear_lt h))

theorem abs_vertex_lt (h : Extremum ym y0 yp) : |vertex ym y0 yp| < 1 / 2 := by
  have hpos : 0 < |square ym y0 yp| := abs_pos.mpr (square_ne_zero h)
  have hlt := abs_linear_lt h
  unfold vertex
  rw [abs_div, abs_neg, abs_mul, abs_two, div_lt_iff₀ (by linarith)]
  linarith

theorem vertex_neg (ym y0 yp : K) : vertex (-ym) (-y0) (-yp) = vertex ym y0 yp := by
  have hlinear : linear (-ym) (-yp) = -linear ym yp := by
    unfold linear
    ring
  have hsquare : 2 * square (-ym) (-y0) (-yp) = -(2 * square ym y0 yp) := by
    unfold square
    ring
  unfold vertex
  rw [hlinear, hsquare, neg_div_neg_eq]

/-- The vertex among samples that are `h` apart. -/
theorem isVertex_vertex (hext : Extremum ym y0 yp) {h : K} (hh : h ≠ 0) (x : K) :
    IsVertex (x - h) x (x + h) ym y0 yp (x + vertex ym y0 yp * h) := by
  have hsquare := square_ne_zero hext
  refine ⟨square ym y0 yp / h ^ 2, linear ym yp / h - 2 * square ym y0 yp * x / h ^ 2,
    square ym y0 yp * x ^ 2 / h ^ 2 - linear ym yp * x / h + y0,
    div_ne_zero hsquare (pow_ne_zero 2 hh), ?_, ?_, ?_, ?_⟩
  · field_simp
    unfold square linear
    ring
  · field_simp
    ring
  · field_simp
    unfold square linear
    ring
  · unfold vertex
    field_simp
    ring

end Kbox.Framework.Parabola
