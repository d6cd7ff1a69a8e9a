import Mathlib.Tactic.Common
import Mathlib.Data.List.Basic
import Mathlib.Data.Nat.ModEq

/-!
# Arrays as lists

Array accesses are checked, and report the caller's own out-of-bounds error.
`arraycopy` is `System.arraycopy`: it copies as if through a temporary array,
so it may be used with one array as source and destination.  Everything a
proof needs about a copy is read off element by element (`getElem?_splice`).

The second half is the arithmetic of a grid kept row after row in one array,
and of a ring.
-/

namespace Kbox.Framework

variable {ε α : Type}

def arrayGet (oob : ε) (xs : List α) (i : Int) : Except ε α :=
  if i < 0 then .error oob
  else match xs[i.toNat]? with
    | some a => .ok a
    | none => .error oob

def arraySet (oob : ε) (xs : List α) (i : Int) (a : α) : Except ε (List α) :=
  if i < 0 ∨ xs.length ≤ i then .error oob else .ok (xs.set i.toNat a)

/-- `xs` with the elements from position `p` on replaced by those of `ys`. -/
def splice (xs : List α) (p : Nat) (ys : List α) : List α :=
  xs.take p ++ ys ++ xs.drop (p + ys.length)

def arraycopy (oob : ε) (src : List α) (srcPos : Int) (dst : List α)
    (dstPos len : Int) : Except ε (List α) :=
  if srcPos < 0 ∨ dstPos < 0 ∨ len < 0 ∨ src.length < srcPos + len ∨
      dst.length < dstPos + len then .error oob
  else .ok (splice dst dstPos.toNat ((src.drop srcPos.toNat).take len.toNat))

theorem arrayGet_of_lt {oob : ε} {xs : List α} {i : Nat} (h : i < xs.length) :
    arrayGet oob xs (i : Int) = .ok xs[i] := by
  simp [arrayGet, h]

theorem arrayGet_ok_iff {oob : ε} {xs : List α} {i : Int} {a : α} :
    arrayGet oob xs i = .ok a ↔ 0 ≤ i ∧ xs[i.toNat]? = some a := by
  unfold arrayGet
  by_cases h : i < 0
  · rw [if_pos h]
    constructor
    · intro heq
      cases heq
    · intro hi
      omega
  · rw [if_neg h]
    cases hget : xs[i.toNat]? with
    | none =>
        constructor
        · intro heq
          cases heq
        · rintro ⟨_, heq⟩
          cases heq
    | some b =>
        constructor
        · intro heq
          cases heq
          exact ⟨by omega, rfl⟩
        · rintro ⟨_, heq⟩
          cases heq
          rfl

theorem arraySet_of_lt {oob : ε} {xs : List α} {i : Nat} (a : α)
    (h : i < xs.length) : arraySet oob xs (i : Int) a = .ok (xs.set i a) := by
  unfold arraySet
  rw [if_neg (by omega), Int.toNat_natCast]

theorem length_splice {xs ys : List α} {p : Nat} (h : p + ys.length ≤ xs.length) :
    (splice xs p ys).length = xs.length := by
  simp only [splice, List.length_append, List.length_take, List.length_drop]
  omega

theorem getElem?_splice {xs ys : List α} {p : Nat}
    (h : p + ys.length ≤ xs.length) (i : Nat) :
    (splice xs p ys)[i]? =
      if p ≤ i ∧ i < p + ys.length then ys[i - p]? else xs[i]? := by
  unfold splice
  have hp : (xs.take p).length = p := by
    rw [List.length_take]
    omega
  rw [List.append_assoc, List.getElem?_append, hp]
  by_cases h1 : i < p
  · rw [if_pos h1, if_neg (by omega), List.getElem?_take_of_lt h1]
  · rw [if_neg h1, List.getElem?_append]
    by_cases h2 : i - p < ys.length
    · rw [if_pos h2, if_pos (by omega)]
    · rw [if_neg h2, if_neg (by omega), List.getElem?_drop]
      congr 1
      omega

/-- Two splices, one right behind the other. -/
theorem splice_splice {xs ys zs : List α} {p : Nat}
    (h : p + ys.length + zs.length ≤ xs.length) :
    splice (splice xs p ys) (p + ys.length) zs = splice xs p (ys ++ zs) := by
  apply List.ext_getElem?
  intro i
  rw [getElem?_splice (by rw [length_splice (by omega)]; exact h),
    getElem?_splice (by omega), getElem?_splice (by rw [List.length_append]; omega),
    List.length_append, List.getElem?_append]
  split_ifs <;> first | omega | rfl | (congr 1; omega)

theorem splice_nil (xs : List α) (p : Nat) : splice xs p [] = xs := by
  simp only [splice, List.append_nil, List.length_nil, Nat.add_zero, List.take_append_drop]

theorem length_of_arraySet {oob : ε} {xs ys : List α} {i : Int} {a : α}
    (h : arraySet oob xs i a = .ok ys) : ys.length = xs.length := by
  unfold arraySet at h
  by_cases hout : i < 0 ∨ xs.length ≤ i
  · rw [if_pos hout] at h
    cases h
  · rw [if_neg hout] at h
    cases h
    rw [List.length_set]

theorem mem_of_arraySet {oob : ε} {xs ys : List α} {i : Int} {a b : α}
    (h : arraySet oob xs i a = .ok ys) (hb : b ∈ ys) : b = a ∨ b ∈ xs := by
  unfold arraySet at h
  by_cases hout : i < 0 ∨ xs.length ≤ i
  · rw [if_pos hout] at h
    cases h
  · rw [if_neg hout] at h
    cases h
    exact (List.mem_or_eq_of_mem_set hb).symm

theorem mem_of_arrayGet {oob : ε} {xs : List α} {i : Int} {a : α}
    (h : arrayGet oob xs i = .ok a) : a ∈ xs :=
  List.mem_of_getElem? (arrayGet_ok_iff.mp h).2

theorem arraycopy_spec {oob : ε} {src dst dst' : List α} {srcPos dstPos len : Int}
    (h : arraycopy oob src srcPos dst dstPos len = .ok dst') :
    dst'.length = dst.length ∧ ∀ a ∈ dst', a ∈ src ∨ a ∈ dst := by
  unfold arraycopy at h
  by_cases hout : srcPos < 0 ∨ dstPos < 0 ∨ len < 0 ∨ src.length < srcPos + len ∨
      dst.length < dstPos + len
  · rw [if_pos hout] at h
    cases h
  · rw [if_neg hout] at h
    cases h
    refine ⟨length_splice ?_, fun a ha => ?_⟩
    · rw [List.length_take, List.length_drop]
      omega
    · simp only [splice, List.mem_append] at ha
      rcases ha with (ha | ha) | ha
      · exact .inr (List.mem_of_mem_take ha)
      · exact .inl (List.mem_of_mem_drop (List.mem_of_mem_take ha))
      · exact .inr (List.mem_of_mem_drop ha)

/-- The stretch an in-range copy moves. -/
def stretch (xs : List α) (p n : Nat) : List α := (xs.drop p).take n

theorem length_stretch {xs : List α} {p n : Nat} (h : p + n ≤ xs.length) :
    (stretch xs p n).length = n := by
  simp only [stretch, List.length_take, List.length_drop]
  omega

theorem stretch_add (xs : List α) (p m n : Nat) :
    stretch xs p (m + n) = stretch xs p m ++ stretch xs (p + m) n := by
  unfold stretch
  rw [List.take_add, List.drop_drop]

theorem take_stretch (xs : List α) {p m n : Nat} (h : m ≤ n) :
    (stretch xs p n).take m = stretch xs p m := by
  unfold stretch
  rw [List.take_take, Nat.min_eq_left h]

theorem drop_stretch (xs : List α) (p m n : Nat) :
    (stretch xs p n).drop m = stretch xs (p + m) (n - m) := by
  unfold stretch
  rw [List.drop_take, List.drop_drop]

theorem getElem?_stretch (xs : List α) (p n i : Nat) :
    (stretch xs p n)[i]? = if i < n then xs[p + i]? else none := by
  unfold stretch
  rw [List.getElem?_take]
  by_cases h : i < n
  · rw [if_pos h, if_pos h, List.getElem?_drop]
  · rw [if_neg h, if_neg h]

/-- What was spliced in lies where it was put. -/
theorem stretch_splice {xs ys : List α} {p : Nat} (h : p + ys.length ≤ xs.length) :
    stretch (splice xs p ys) p ys.length = ys := by
  apply List.ext_getElem?
  intro i
  rw [getElem?_stretch, getElem?_splice h]
  by_cases hi : i < ys.length
  · rw [if_pos hi, if_pos (by omega), Nat.add_sub_cancel_left]
  · rw [if_neg hi, List.getElem?_eq_none (by omega)]

theorem arraycopy_of_le {oob : ε} {src dst : List α} {sp dp n : Nat}
    (hs : sp + n ≤ src.length) (hd : dp + n ≤ dst.length) :
    arraycopy oob src (sp : Int) dst (dp : Int) (n : Int) =
      .ok (splice dst dp (stretch src sp n)) := by
  unfold arraycopy
  rw [if_neg (by omega)]
  simp only [Int.toNat_natCast, stretch]

theorem getElem?_splice_stretch {xs ys : List α} {p q n : Nat}
    (hp : p + n ≤ xs.length) (hq : q + n ≤ ys.length) (i : Nat) :
    (splice xs p (stretch ys q n))[i]? =
      if p ≤ i ∧ i < p + n then ys[q + (i - p)]? else xs[i]? := by
  have hl : (stretch ys q n).length = n := length_stretch hq
  rw [getElem?_splice (by rw [hl]; exact hp), hl, getElem?_stretch]
  by_cases h : p ≤ i ∧ i < p + n
  · rw [if_pos h, if_pos h, if_pos (by omega)]
  · rw [if_neg h, if_neg h]

theorem length_splice_stretch {xs ys : List α} {p q n : Nat}
    (hp : p + n ≤ xs.length) (hq : q + n ≤ ys.length) :
    (splice xs p (stretch ys q n)).length = xs.length :=
  length_splice (by rw [length_stretch hq]; exact hp)

/-- A table that changes at one index only. -/
theorem map_range_eq_modify {f g : Nat → α} {F : α → α} {n k : Nat}
    (hk : k < n → g k = F (f k)) (hother : ∀ i < n, i ≠ k → g i = f i) :
    (List.range n).map g = ((List.range n).map f).modify k F := by
  apply List.ext_getElem
  · rw [List.length_modify, List.length_map, List.length_map]
  · intro i hi _
    rw [List.length_map, List.length_range] at hi
    rw [List.getElem_modify]
    simp only [List.getElem_map, List.getElem_range]
    by_cases hik : k = i
    · subst hik
      rw [if_pos rfl, hk hi]
    · rw [if_neg hik, hother i hi (Ne.symm hik)]

/-! ## Row-major grids -/

theorem rowMajor_lt {c a n x : Nat} (hx : x < c) (ha : a < n) :
    a * c + x < n * c := by
  calc a * c + x < a * c + c := by omega
    _ = (a + 1) * c := by rw [Nat.succ_mul]
    _ ≤ n * c := Nat.mul_le_mul_right c ha

/-- Which cells a run of `n` whole rows from row `d` on covers. -/
theorem rowMajor_mem_rows {c a d n x : Nat} (hx : x < c) :
    (d * c ≤ a * c + x ∧ a * c + x < d * c + n * c) ↔ (d ≤ a ∧ a < d + n) := by
  constructor
  · rintro ⟨h1, h2⟩
    constructor
    · by_contra hlt
      have : (a + 1) * c ≤ d * c := Nat.mul_le_mul_right c (by omega)
      rw [Nat.succ_mul] at this
      omega
    · by_contra hge
      have : (d + n) * c ≤ a * c := Nat.mul_le_mul_right c (by omega)
      rw [Nat.add_mul] at this
      omega
  · rintro ⟨h1, h2⟩
    have h3 : d * c ≤ a * c := Nat.mul_le_mul_right c h1
    have h4 : (a + 1) * c ≤ (d + n) * c := Nat.mul_le_mul_right c (by omega)
    rw [Nat.succ_mul, Nat.add_mul] at h4
    omega

/-- Which cells a run of `w` columns from column `p` of row `d` on covers. -/
theorem rowMajor_mem_columns {c a d p w x : Nat} (hx : x < c) (hw : p + w ≤ c) :
    (d * c + p ≤ a * c + x ∧ a * c + x < d * c + p + w) ↔
      (a = d ∧ p ≤ x ∧ x < p + w) := by
  constructor
  · rintro ⟨h1, h2⟩
    have hrow : d * c ≤ a * c + x ∧ a * c + x < d * c + 1 * c := by omega
    have had := (rowMajor_mem_rows hx).mp hrow
    have : a = d := by omega
    subst this
    omega
  · rintro ⟨rfl, h1, h2⟩
    omega

/-! ## Circular buffers -/

/-- Distinct positions of a ring of size `n` are distinct array indices. -/
theorem ring_index_inj {n start i j : Nat} (hi : i < n) (hj : j < n)
    (h : (start + i) % n = (start + j) % n) : i = j := by
  have hm : i ≡ j [MOD n] := Nat.ModEq.add_left_cancel' start h
  have := hm
  unfold Nat.ModEq at this
  rwa [Nat.mod_eq_of_lt hi, Nat.mod_eq_of_lt hj] at this

end Kbox.Framework
