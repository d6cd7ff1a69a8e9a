/-!
# Two's-complement `int` arithmetic

A Java `int` is represented by the integer it denotes.  `wrap32` brings the
exact result of an operation back into range, so `iadd`, `isub` and `imul` are
the machine operations, and the `_of_range` lemmas say when they coincide with
the exact ones.
-/

namespace Kbox.Framework

/-- A Java `byte`, and a Java `char`. -/
abbrev JByte : Type := BitVec 8
abbrev JChar : Type := BitVec 16

/-- The largest `int`. -/
def intMax : Int := 2147483647

/-- The `int` congruent to `x` modulo `2 ^ 32`. -/
@[irreducible] def wrap32 (x : Int) : Int := (x + 2147483648) % 4294967296 - 2147483648

/-- `x` is the value of some `int`. -/
def IsInt (x : Int) : Prop := -2147483648 ≤ x ∧ x ≤ 2147483647

instance (x : Int) : Decidable (IsInt x) := by unfold IsInt; infer_instance

@[irreducible] def iadd (x y : Int) : Int := wrap32 (x + y)
@[irreducible] def isub (x y : Int) : Int := wrap32 (x - y)
@[irreducible] def imul (x y : Int) : Int := wrap32 (x * y)

/-- `(short) x` -/
@[irreducible] def toShort (x : Int) : Int := (x + 32768) % 65536 - 32768

theorem isInt_wrap32 (x : Int) : IsInt (wrap32 x) := by
  unfold IsInt wrap32
  omega

theorem wrap32_of_isInt {x : Int} (h : IsInt x) : wrap32 x = x := by
  unfold IsInt at h
  unfold wrap32
  omega

theorem iadd_of_isInt {x y : Int} (h : IsInt (x + y)) : iadd x y = x + y := by
  unfold iadd
  exact wrap32_of_isInt h

theorem isub_of_isInt {x y : Int} (h : IsInt (x - y)) : isub x y = x - y := by
  unfold isub
  exact wrap32_of_isInt h

theorem imul_of_isInt {x y : Int} (h : IsInt (x * y)) : imul x y = x * y := by
  unfold imul
  exact wrap32_of_isInt h

/-- Natural numbers that stay below the limit add exactly. -/
theorem iadd_natCast {a b n : Nat} (hab : a + b ≤ n) (hn : (n : Int) ≤ intMax) :
    iadd (a : Int) (b : Int) = ((a + b : Nat) : Int) := by
  unfold intMax at hn
  rw [iadd_of_isInt]
  · push_cast
    rfl
  · unfold IsInt
    omega

theorem imul_natCast {a b n : Nat} (hab : a * b ≤ n) (hn : (n : Int) ≤ intMax) :
    imul (a : Int) (b : Int) = ((a * b : Nat) : Int) := by
  unfold intMax at hn
  have hcast : (a : Int) * (b : Int) = ((a * b : Nat) : Int) := by
    push_cast
    rfl
  rw [imul_of_isInt]
  · exact hcast
  · unfold IsInt
    omega

/-- Once past `intMax` a sum of two nonnegative `int`s is negative. -/
theorem iadd_neg_of_overflow {x y : Int} (hx : 0 ≤ x) (hy : 0 ≤ y)
    (hx' : IsInt x) (hy' : IsInt y) (h : intMax < x + y) : iadd x y < 0 := by
  unfold IsInt at hx' hy'
  unfold intMax at h
  unfold iadd wrap32
  omega

end Kbox.Framework
