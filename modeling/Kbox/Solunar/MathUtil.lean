import Kbox.Framework.Parabola

/-!
# `mathutil.c`: extrema

Samples are functions of the index, of which only the first `npoints` are read, and the values are
those of an ordered field.  A function that divides by zero has no result.
-/

namespace Kbox.Solunar

open Kbox.Framework.Parabola

section Definitions

variable {K : Type} [Field K] [LinearOrder K]

def divide (a b : K) : Option K := if b = 0 then none else some (a / b)

/-- `mathutil_quadratic_minmax` -/
def quadratic_minmax (y0 yM yP dx : K) : Option K := do
  let x1 := -dx
  let x2 := dx
  let a ← divide (yM * x2 - yP * x1 - y0 * (x2 - x1)) (x1 * x1 * x2 - x2 * x2 * x1)
  let b ← divide (yM - y0 - a * x1 * x1) x1
  divide (-b) (2 * a)

/-- `for (i = ...; i < npoints - 1 && *nmins < maxmins; i++)`, where `probe` is the body: what it
appends to `mins`, if it appends anything. -/
def scanFrom (probe : Nat → Option (Option K)) (maxmins : Int) :
    Nat → Nat → List K → Option (List K)
  | 0, _, mins => some mins
  | rounds + 1, i, mins =>
      if (mins.length : Int) < maxmins then do
        let found ← probe i
        scanFrom probe maxmins rounds (i + 1) (mins ++ found.toList)
      else some mins

/-- The loop that starts with `i = 1`. -/
def scan (probe : Nat → Option (Option K)) (npoints maxmins : Int) : Option (List K) :=
  scanFrom probe maxmins (npoints - 2).toNat 1 []

/-- `mathutil_get_maxima` -/
def get_maxima (x y : Nat → K) (npoints maxmins : Int) : Option (List K) :=
  scan (fun i => do
    let y0 := y (i - 1)
    let y1 := y i
    let y2 := y (i + 1)
    if y0 < y1 ∧ y2 < y1 then
      let x0 ← quadratic_minmax y1 y0 y2 (x 1 - x 0)
      return some (x i + x0)
    else return none) npoints maxmins

/-- `mathutil_get_minima` -/
def get_minima (x y : Nat → K) (npoints maxmins : Int) : Option (List K) :=
  scan (fun i => do
    let y0 := y (i - 1)
    let y1 := y i
    let y2 := y (i + 1)
    if y0 > y1 ∧ y2 > y1 then
      let A := 1 / 2 * (y0 + y2) - y1
      let B := 1 / 2 * (y2 - y0)
      let xExtreme ← divide (-B) (2 * A)
      return some (x (i - 1) + (1 + xExtreme) * (x i - x (i - 1)))
    else return none) npoints maxmins

end Definitions

section Scans

variable {K : Type}

/-- The indices that are visited. -/
def inner (npoints : Int) : List Nat := List.range' 1 (npoints - 2).toNat

theorem mem_inner {npoints : Int} {i : Nat} :
    i ∈ inner npoints ↔ 1 ≤ i ∧ (i : Int) + 1 < npoints := by
  unfold inner
  rw [List.mem_range'_1]
  omega

/-- A loop that divides by zero nowhere. -/
theorem scanFrom_eq {probe : Nat → Option (Option K)} {found : Nat → Option K} {maxmins : Int}
    {rounds i : Nat} {mins : List K}
    (h : ∀ j ∈ List.range' i rounds, probe j = some (found j))
    (hmins : mins = [] ∨ (mins.length : Int) ≤ maxmins) :
    scanFrom probe maxmins rounds i mins =
      some (mins ++ ((List.range' i rounds).filterMap found).take
        (maxmins - mins.length).toNat) := by
  induction rounds generalizing i mins with
  | zero =>
      rw [scanFrom, List.range'_zero, List.filterMap_nil, List.take_nil, List.append_nil]
  | succ rounds ih =>
      rw [List.range'_succ] at h ⊢
      obtain ⟨hfirst, hrest⟩ := List.forall_mem_cons.mp h
      rw [scanFrom]
      by_cases hroom : (mins.length : Int) < maxmins
      · rw [if_pos hroom, hfirst]
        show scanFrom probe maxmins rounds (i + 1) (mins ++ (found i).toList) = _
        cases hfound : found i with
        | none =>
            rw [Option.toList_none, List.append_nil, ih hrest hmins,
              List.filterMap_cons_none hfound]
        | some a =>
            have hlength : ((mins ++ [a]).length : Int) = mins.length + 1 := by
              rw [List.length_append]
              rfl
            rw [Option.toList_some, ih hrest (.inr (by omega)), List.filterMap_cons_some hfound,
              List.append_assoc, hlength]
            have htake : (maxmins - mins.length).toNat =
                (maxmins - (mins.length + 1)).toNat + 1 := by
              omega
            rw [htake, List.take_succ_cons]
            rfl
      · have hfull : (maxmins - mins.length).toNat = 0 := by omega
        rw [if_neg hroom, hfull, List.take_zero, List.append_nil]

theorem scan_eq {probe : Nat → Option (Option K)} (found : Nat → Option K) {npoints : Int}
    (h : ∀ i ∈ inner npoints, probe i = some (found i)) (maxmins : Int) :
    scan probe npoints maxmins = some (((inner npoints).filterMap found).take maxmins.toNat) := by
  unfold scan
  rw [scanFrom_eq h (.inl rfl)]
  simp only [List.length_nil, Nat.cast_zero, sub_zero, List.nil_append]
  rfl

/-- The entries belong to the indices that satisfy `p`. -/
theorem filterMap_ite (p : Nat → Prop) [DecidablePred p] (f : Nat → K) (l : List Nat) :
    l.filterMap (fun i => if p i then some (f i) else none) = (l.filter (p ·)).map f := by
  induction l with
  | nil => rfl
  | cons i l ih =>
      rw [List.filterMap_cons, ih]
      by_cases hi : p i
      · rw [if_pos hi, List.filter_cons, if_pos (decide_eq_true hi), List.map_cons]
      · rw [if_neg hi, List.filter_cons, if_neg (by simpa using hi)]

end Scans

section Extrema

variable {K : Type} [Field K] [LinearOrder K] [IsStrictOrderedRing K]
variable {x y : Nat → K} {h : K} {npoints : Int}

/-- Where the inner samples are larger than both of their neighbours. -/
def maximaOf (y : Nat → K) (npoints : Int) : List Nat :=
  (inner npoints).filter fun i => y (i - 1) < y i ∧ y (i + 1) < y i

/-- Where they are smaller. -/
def minimaOf (y : Nat → K) (npoints : Int) : List Nat :=
  (inner npoints).filter fun i => y i < y (i - 1) ∧ y i < y (i + 1)

/-- The abscissas `as` are in order, and each is the vertex near one of the samples `is`. -/
def Locates (x y : Nat → K) (h : K) (is : List Nat) (as : List K) : Prop :=
  as.Pairwise (· < ·) ∧ List.Forall₂ (fun i a =>
    IsVertex (x (i - 1)) (x i) (x (i + 1)) (y (i - 1)) (y i) (y (i + 1)) a ∧
      |a - x i| < h / 2) is as

/-- The first `npoints` abscissas are `h` apart. -/
def Spaced (x : Nat → K) (h : K) (npoints : Int) : Prop :=
  ∀ i : Nat, (i : Int) + 1 < npoints → x (i + 1) = x i + h

omit [LinearOrder K] [IsStrictOrderedRing K] in
theorem Spaced.prev (hx : Spaced x h npoints) {i : Nat} (hi : i ∈ inner npoints) :
    x (i - 1) = x i - h ∧ x (i + 1) = x i + h := by
  obtain ⟨hpos, hlt⟩ := mem_inner.mp hi
  obtain ⟨i, rfl⟩ := Nat.exists_eq_add_of_le' hpos
  have hstep := hx i (by push_cast at hlt; omega)
  refine ⟨?_, hx (i + 1) hlt⟩
  rw [Nat.add_sub_cancel, hstep, add_sub_cancel_right]

omit [LinearOrder K] [IsStrictOrderedRing K] in
theorem Spaced.first (hx : Spaced x h npoints) {i : Nat} (hi : i ∈ inner npoints) :
    x 1 - x 0 = h := by
  have hlt := (mem_inner.mp hi).2
  rw [show (1 : Nat) = 0 + 1 from rfl, hx 0 (by push_cast; omega), add_sub_cancel_left]

theorem Spaced.add_le (hx : Spaced x h npoints) (hh : 0 < h) {i : Nat} (n : Nat)
    (hi : (i : Int) + n + 1 < npoints) : x i + h ≤ x (i + n + 1) := by
  induction n with
  | zero => exact (hx i (by push_cast at hi; omega)).ge
  | succ n ih =>
      have hearlier := ih (by push_cast at hi ⊢; omega)
      have hstep := hx (i + n + 1) (by push_cast at hi ⊢; omega)
      rw [show i + (n + 1) + 1 = i + n + 1 + 1 by omega, hstep]
      linarith

/-- The place of an extremum. -/
def vertexAt (x y : Nat → K) (h : K) (i : Nat) : K :=
  x i + vertex (y (i - 1)) (y i) (y (i + 1)) * h

omit [IsStrictOrderedRing K] in
theorem divide_of_ne {a b : K} (hb : b ≠ 0) : divide a b = some (a / b) := if_neg hb

theorem quadratic_minmax_eq {y0 yM yP dx : K} (hext : Extremum yM y0 yP) (hdx : dx ≠ 0) :
    quadratic_minmax y0 yM yP dx = some (vertex yM y0 yP * dx) := by
  have hsquare := square_ne_zero hext
  have hcubic : -dx * -dx * dx - dx * dx * -dx ≠ 0 := by
    have heq : -dx * -dx * dx - dx * dx * -dx = 2 * dx ^ 3 := by ring
    rw [heq]
    exact mul_ne_zero two_ne_zero (pow_ne_zero 3 hdx)
  have ha : (yM * dx - yP * -dx - y0 * (dx - -dx)) / (-dx * -dx * dx - dx * dx * -dx) =
      square yM y0 yP / dx ^ 2 := by
    unfold square
    field_simp
    ring
  have hb : (yM - y0 - square yM y0 yP / dx ^ 2 * -dx * -dx) / -dx = linear yM yP / dx := by
    unfold square linear
    field_simp
    ring
  unfold quadratic_minmax
  simp only [divide_of_ne hcubic, ha, Option.bind_eq_bind, Option.bind_some,
    divide_of_ne (neg_ne_zero.mpr hdx), hb]
  rw [divide_of_ne (mul_ne_zero two_ne_zero (div_ne_zero hsquare (pow_ne_zero 2 hdx)))]
  refine congrArg some ?_
  unfold vertex
  field_simp

theorem get_maxima_eq (hx : Spaced x h npoints) (hh : 0 < h) (y : Nat → K) (maxmins : Int) :
    get_maxima x y npoints maxmins =
      some (((maximaOf y npoints).take maxmins.toNat).map (vertexAt x y h)) := by
  unfold get_maxima maximaOf
  rw [scan_eq (fun i => if y (i - 1) < y i ∧ y (i + 1) < y i then
    some (vertexAt x y h i) else none), filterMap_ite, List.map_take]
  intro i hi
  by_cases hmax : y (i - 1) < y i ∧ y (i + 1) < y i
  · simp only [if_pos hmax]
    rw [hx.first hi, quadratic_minmax_eq (.inl hmax) hh.ne']
    rfl
  · simp only [if_neg hmax]
    rfl

theorem get_minima_eq (hx : Spaced x h npoints) (y : Nat → K) (maxmins : Int) :
    get_minima x y npoints maxmins =
      some (((minimaOf y npoints).take maxmins.toNat).map (vertexAt x y h)) := by
  unfold get_minima minimaOf
  rw [scan_eq (fun i => if y i < y (i - 1) ∧ y i < y (i + 1) then
    some (vertexAt x y h i) else none), filterMap_ite, List.map_take]
  intro i hi
  by_cases hmin : y i < y (i - 1) ∧ y i < y (i + 1)
  · have hext : Extremum (y (i - 1)) (y i) (y (i + 1)) := .inr hmin
    have hdivide := divide_of_ne (a := -linear (y (i - 1)) (y (i + 1)))
      (mul_ne_zero two_ne_zero (square_ne_zero hext))
    obtain ⟨hprev, -⟩ := hx.prev hi
    simp only [gt_iff_lt, if_pos hmin]
    unfold linear square at hdivide
    rw [hdivide]
    refine congrArg (some ∘ some) ?_
    unfold vertexAt vertex linear square
    rw [hprev]
    ring
  · simp only [gt_iff_lt, if_neg hmin]
    rfl

/-- What is found at extrema is located. -/
theorem locates_vertexAt (hx : Spaced x h npoints) (hh : 0 < h) {is : List Nat}
    (hincreasing : is.Pairwise (· < ·))
    (his : ∀ i ∈ is, i ∈ inner npoints ∧ Extremum (y (i - 1)) (y i) (y (i + 1))) :
    Locates x y h is (is.map (vertexAt x y h)) := by
  have hnear (i : Nat) (hi : i ∈ is) : |vertexAt x y h i - x i| < h / 2 := by
    have hvertex := abs_vertex_lt (his i hi).2
    unfold vertexAt
    rw [add_sub_cancel_left, abs_mul, abs_of_pos hh]
    have hscaled := mul_lt_mul_of_pos_right hvertex hh
    linarith
  constructor
  · rw [List.pairwise_map]
    refine List.Pairwise.imp_of_mem ?_ hincreasing
    intro i j hi hj hij
    obtain ⟨-, hleft⟩ := abs_lt.mp (hnear i hi)
    obtain ⟨hright, -⟩ := abs_lt.mp (hnear j hj)
    have hlt := (mem_inner.mp (his j hj).1).2
    have hle := hx.add_le hh (i := i) (j - i - 1) (by omega)
    rw [show i + (j - i - 1) + 1 = j by omega] at hle
    linarith
  · rw [List.forall₂_map_right_iff, List.forall₂_same]
    intro i hi
    obtain ⟨hinner, hext⟩ := his i hi
    obtain ⟨hprev, hnext⟩ := hx.prev hinner
    refine ⟨?_, hnear i hi⟩
    rw [hprev, hnext]
    exact isVertex_vertex hext hh.ne' (x i)

theorem increasing_inner (npoints : Int) : (inner npoints).Pairwise (· < ·) :=
  List.pairwise_lt_range'

theorem minimaOf_eq_neg (y : Nat → K) (npoints : Int) :
    maximaOf (fun i => -y i) npoints = minimaOf y npoints := by
  unfold maximaOf minimaOf
  simp only [neg_lt_neg_iff]

theorem vertexAt_neg (x y : Nat → K) (h : K) :
    vertexAt x (fun i => -y i) h = vertexAt x y h := by
  funext i
  unfold vertexAt
  rw [vertex_neg]

/-- **The extremum finders are dual and local.** -/
theorem extrema_dual_local (hx : Spaced x h npoints) (hh : 0 < h) (y : Nat → K) (maxmins : Int) :
    ∃ mins maxs, get_minima x y npoints maxmins = some mins ∧
      get_maxima x (fun i => -y i) npoints maxmins = some mins ∧
      get_maxima x y npoints maxmins = some maxs ∧
      Locates x y h ((minimaOf y npoints).take maxmins.toNat) mins ∧
      Locates x y h ((maximaOf y npoints).take maxmins.toNat) maxs := by
  refine ⟨_, _, get_minima_eq hx y maxmins, ?_, get_maxima_eq hx hh y maxmins, ?_, ?_⟩
  · rw [get_maxima_eq hx hh, minimaOf_eq_neg, vertexAt_neg]
  · refine locates_vertexAt hx hh ?_ fun i hi => ?_
    · exact ((increasing_inner npoints).filter _).sublist (List.take_sublist _ _)
    · obtain ⟨hinner, hmin⟩ := List.mem_filter.mp (List.mem_of_mem_take hi)
      exact ⟨hinner, .inr (of_decide_eq_true hmin)⟩
  · refine locates_vertexAt hx hh ?_ fun i hi => ?_
    · exact ((increasing_inner npoints).filter _).sublist (List.take_sublist _ _)
    · obtain ⟨hinner, hmax⟩ := List.mem_filter.mp (List.mem_of_mem_take hi)
      exact ⟨hinner, .inl (of_decide_eq_true hmax)⟩

end Extrema

/-- Two humps with a valley between them. -/
theorem extrema_dual_local_humps : ∃ mins maxs,
    get_minima (fun i => (i : ℚ)) (fun i => [0, 2, 1, 5, 3][i]?.getD 0) 5 9 = some mins ∧
      get_maxima (fun i => (i : ℚ)) (fun i => [0, 2, 1, 5, 3][i]?.getD 0) 5 9 = some maxs ∧
      mins.length = 1 ∧ maxs.length = 2 := by
  have hspaced : Spaced (fun i => (i : ℚ)) 1 5 := fun i _ => Nat.cast_succ i
  obtain ⟨mins, maxs, hmins, -, hmaxs, ⟨-, hvalleys⟩, ⟨-, hhumps⟩⟩ :=
    extrema_dual_local hspaced one_pos (fun i => [0, 2, 1, 5, 3][i]?.getD 0) 9
  exact ⟨mins, maxs, hmins, hmaxs, hvalleys.length_eq.symm, hhumps.length_eq.symm⟩

end Kbox.Solunar
