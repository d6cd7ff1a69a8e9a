import Mathlib.Tactic.IntervalCases
import Mathlib.Tactic.NormNum
import Kbox.Framework.ParabolaRoots
import Kbox.Solunar.MathUtil

/-!
# `mathutil.c` and `moontimes.c`: crossings

A crossing is looked for behind a sample that has a sample of the same sign in front of it.  What
is looked for is found; a change of sign in the first step, or right behind another one, is not.
-/

namespace Kbox.Solunar

open Kbox.Framework.Parabola

noncomputable section

/-! ## §1  The crossings that are looked for -/

/-- The root in steps from the middle of three samples, if there is any. -/
def bisect (y0 y1 y2 : ℝ) : Option ℝ :=
  let A := 1 / 2 * (y0 + y2) - y1
  let B := 1 / 2 * (y2 - y0)
  let C := y1
  let xExtreme := -B / (2 * A)
  let discriminant := B * B - 4 * A * C
  if discriminant ≥ 0 then
    let DX := 1 / 2 * √discriminant / |A|
    let root1 := xExtreme - DX
    let root2 := xExtreme + DX
    -- samples on a straight line: both roots are infinite or no numbers, and no comparison holds
    if A = 0 then some 0
    else if |root2| < 1 then some root2
    else if |root1| < 1 then some root1
    else some 0
  else none

/-- `mathutil_get_positive_axis_crossings` -/
def get_positive_axis_crossings (x y : Nat → ℝ) (npoints maxmins : Int) : Option (List ℝ) :=
  scan (fun i =>
    let y0 := y (i - 1)
    let y1 := y i
    let y2 := y (i + 1)
    some (if y0 < 0 ∧ y1 ≤ 0 ∧ y2 > 0 then
      (bisect y0 y1 y2).map fun bisect => x i + bisect * (x i - x (i - 1))
    else none)) npoints maxmins

/-- `mathutil_get_negative_axis_crossings` -/
def get_negative_axis_crossings (x y : Nat → ℝ) (npoints maxmins : Int) : Option (List ℝ) :=
  scan (fun i =>
    let y0 := y (i - 1)
    let y1 := y i
    let y2 := y (i + 1)
    some (if y0 > 0 ∧ y1 ≥ 0 ∧ y2 < 0 then
      (bisect y0 y1 y2).map fun bisect => x i + bisect * (x i - x (i - 1))
    else none)) npoints maxmins

/-- The two scans are one scan of the samples and of their negatives. -/
theorem bisect_neg (y0 y1 y2 : ℝ) : bisect (-y0) (-y1) (-y2) = bisect y0 y1 y2 := by
  have hsquare : 1 / 2 * (-y0 + -y2) - -y1 = -(1 / 2 * (y0 + y2) - y1) := by ring
  have hlinear : 1 / 2 * (-y2 - -y0) = -(1 / 2 * (y2 - y0)) := by ring
  unfold bisect
  simp only [hsquare, hlinear, mul_neg, neg_mul, neg_neg, neg_div, div_neg, abs_neg, neg_eq_zero]

theorem get_negative_eq (x y : Nat → ℝ) (npoints maxmins : Int) :
    get_negative_axis_crossings x y npoints maxmins =
      get_positive_axis_crossings x (fun i => -y i) npoints maxmins := by
  unfold get_negative_axis_crossings get_positive_axis_crossings
  simp only [bisect_neg, Left.neg_neg_iff, Left.neg_nonpos_iff, gt_iff_lt, ge_iff_le,
    Left.neg_pos_iff]

/-- There is a root, and it is the one behind the sample in the middle. -/
theorem bisect_spec {y0 y1 y2 : ℝ} (h1 : y1 < 0) (h2 : 0 < y2) :
    ∃ t, bisect y0 y1 y2 = some t ∧ 0 ≤ t ∧ t < 1 := by
  have hend : 0 < 1 / 2 * (y0 + y2) - y1 + 1 / 2 * (y2 - y0) + y1 := by linarith
  unfold bisect
  generalize hA : 1 / 2 * (y0 + y2) - y1 = A at hend ⊢
  generalize hB : 1 / 2 * (y2 - y0) = B at hend ⊢
  show ∃ t, (if discriminant A B y1 ≥ 0 then
    if A = 0 then some 0
    else if |-B / (2 * A) + spread A B y1| < 1 then some (-B / (2 * A) + spread A B y1)
    else if |-B / (2 * A) - spread A B y1| < 1 then some (-B / (2 * A) - spread A B y1)
    else some 0 else none) = some t ∧ 0 ≤ t ∧ t < 1
  rcases lt_trichotomy A 0 with hneg | hzero | hpos
  · obtain ⟨hdisc, hleft, hright, hgreater⟩ := root_of_square_neg hneg h1 hend
    have hfar : ¬ |-B / (2 * A) + spread A B y1| < 1 := by
      rw [abs_of_pos (by linarith)]
      exact not_lt.mpr hgreater.le
    have hnear : |-B / (2 * A) - spread A B y1| < 1 := by
      rw [abs_of_pos hleft]
      exact hright
    rw [if_pos hdisc, if_neg hneg.ne, if_neg hfar, if_pos hnear]
    exact ⟨_, rfl, hleft.le, hright⟩
  · have hdisc : 0 ≤ discriminant A B y1 := by
      unfold discriminant
      rw [hzero, mul_zero, zero_mul, sub_zero]
      exact mul_self_nonneg B
    rw [if_pos hdisc, if_pos hzero]
    exact ⟨0, rfl, le_refl 0, one_pos⟩
  · obtain ⟨hdisc, hleft, hright⟩ := root_of_square_pos hpos h1 hend
    have hnear : |-B / (2 * A) + spread A B y1| < 1 := by
      rw [abs_of_pos hleft]
      exact hright
    rw [if_pos hdisc, if_neg hpos.ne', if_pos hnear]
    exact ⟨_, rfl, hleft.le, hright⟩

/-! ## §2  The crossings that there are -/

/-- The steps in which the samples change from negative to positive. -/
def rises (y : Nat → ℝ) (npoints : Int) : List Nat :=
  (List.range (npoints - 1).toNat).filter fun i => y i < 0 ∧ 0 < y (i + 1)

/-- From positive to negative. -/
def falls (y : Nat → ℝ) (npoints : Int) : List Nat :=
  (List.range (npoints - 1).toNat).filter fun i => 0 < y i ∧ y (i + 1) < 0

/-- One abscissa in each of the steps, in increasing order. -/
def Finds (x : Nat → ℝ) (is : List Nat) (as : List ℝ) : Prop :=
  as.Pairwise (· < ·) ∧ List.Forall₂ (fun i a => x i ≤ a ∧ a ≤ x (i + 1)) is as

/-- In front of every change of sign is another sample of the same sign. -/
def Isolated (y : Nat → ℝ) (npoints : Int) : Prop :=
  ∀ i : Nat, (i : Int) + 1 < npoints → y i * y (i + 1) < 0 → 1 ≤ i ∧ 0 < y (i - 1) * y i

/-- The rises that are looked for. -/
def windows (y : Nat → ℝ) (npoints : Int) : List Nat :=
  (rises y npoints).filter fun i => 1 ≤ i ∧ y (i - 1) < 0

variable {x y : Nat → ℝ} {h : ℝ} {npoints : Int}

theorem mem_rises {i : Nat} :
    i ∈ rises y npoints ↔ (i : Int) + 1 < npoints ∧ y i < 0 ∧ 0 < y (i + 1) := by
  unfold rises
  rw [List.mem_filter, List.mem_range, decide_eq_true_iff]
  constructor
  · rintro ⟨hlt, hsigns⟩
    exact ⟨by omega, hsigns⟩
  · rintro ⟨hlt, hsigns⟩
    exact ⟨by omega, hsigns⟩

theorem mem_windows {i : Nat} :
    i ∈ windows y npoints ↔ i ∈ rises y npoints ∧ 1 ≤ i ∧ y (i - 1) < 0 := by
  unfold windows
  rw [List.mem_filter, decide_eq_true_iff]

theorem increasing_rises (y : Nat → ℝ) (npoints : Int) : (rises y npoints).Pairwise (· < ·) :=
  List.pairwise_lt_range.filter _

/-- The windows, as the loop meets them. -/
theorem windows_eq (y : Nat → ℝ) (npoints : Int) : windows y npoints =
    (inner npoints).filter fun i => y (i - 1) < 0 ∧ y i < 0 ∧ 0 < y (i + 1) := by
  have hinner : inner npoints = (List.range (npoints - 1).toNat).filter (1 ≤ ·) := by
    refine List.Pairwise.eq_of_mem_iff (increasing_inner npoints)
      (List.pairwise_lt_range.filter _) fun i => ?_
    rw [mem_inner, List.mem_filter, List.mem_range, decide_eq_true_iff]
    omega
  unfold windows rises
  rw [hinner, List.filter_filter, List.filter_filter]
  refine List.filter_congr fun i _ => ?_
  by_cases hpos : 1 ≤ i <;> by_cases hlast : y (i - 1) < 0 <;> simp [hpos, hlast]

/-- The abscissa of a window. -/
def guess (x y : Nat → ℝ) (h : ℝ) (i : Nat) : ℝ :=
  x i + (bisect (y (i - 1)) (y i) (y (i + 1))).getD 0 * h

theorem get_positive_eq (hx : Spaced x h npoints) (hy : ∀ i : Nat, (i : Int) < npoints → y i ≠ 0)
    (maxmins : Int) : get_positive_axis_crossings x y npoints maxmins =
      some (((windows y npoints).take maxmins.toNat).map (guess x y h)) := by
  unfold get_positive_axis_crossings
  rw [scan_eq (fun i => if y (i - 1) < 0 ∧ y i < 0 ∧ 0 < y (i + 1) then
    some (guess x y h i) else none), filterMap_ite, List.map_take, windows_eq]
  intro i hi
  have hnonzero := hy i (by have := (mem_inner.mp hi).2; omega)
  have hiff : (y (i - 1) < 0 ∧ y i ≤ 0 ∧ y (i + 1) > 0) ↔
      (y (i - 1) < 0 ∧ y i < 0 ∧ 0 < y (i + 1)) := by
    rw [lt_iff_le_and_ne (a := y i)]
    tauto
  by_cases hwindow : y (i - 1) < 0 ∧ y i < 0 ∧ 0 < y (i + 1)
  · obtain ⟨t, ht, -⟩ := bisect_spec hwindow.2.1 hwindow.2.2
    obtain ⟨hprev, -⟩ := hx.prev hi
    simp only [if_pos hwindow, if_pos (hiff.mpr hwindow)]
    unfold guess
    rw [ht, hprev, sub_sub_cancel]
    rfl
  · simp only [if_neg hwindow, if_neg fun hnot => hwindow (hiff.mp hnot)]

theorem guess_mem (hx : Spaced x h npoints) (hh : 0 < h) {i : Nat} (hi : i ∈ windows y npoints) :
    x i ≤ guess x y h i ∧ guess x y h i < x (i + 1) := by
  obtain ⟨hrise, hpos, hlast⟩ := mem_windows.mp hi
  obtain ⟨hlt, hneg, hnext⟩ := mem_rises.mp hrise
  obtain ⟨t, ht, hnonneg, hone⟩ := bisect_spec hneg hnext
  have hstep := hx i hlt
  have hscaled := mul_lt_mul_of_pos_right hone hh
  have hpositive := mul_nonneg hnonneg hh.le
  unfold guess
  rw [ht, Option.getD_some, hstep]
  constructor <;> linarith

theorem finds_windows (hx : Spaced x h npoints) (hh : 0 < h) :
    Finds x (windows y npoints) ((windows y npoints).map (guess x y h)) := by
  constructor
  · rw [List.pairwise_map]
    refine List.Pairwise.imp_of_mem ?_ ((increasing_rises y npoints).filter _)
    intro i j hi hj hij
    have hlt := (mem_rises.mp (mem_windows.mp hj).1).1
    have hle := hx.add_le hh (i := i) (j - i - 1) (by omega)
    rw [show i + (j - i - 1) + 1 = j by omega] at hle
    have hstep := hx i (by omega)
    have hleft := (guess_mem hx hh hi).2
    have hright := (guess_mem hx hh hj).1
    linarith
  · rw [List.forall₂_map_right_iff, List.forall₂_same]
    intro i hi
    exact ⟨(guess_mem hx hh hi).1, (guess_mem hx hh hi).2.le⟩

/-- Every rise is looked for. -/
def AllWindows (y : Nat → ℝ) (npoints : Int) : Prop :=
  ∀ i ∈ rises y npoints, 1 ≤ i ∧ y (i - 1) < 0

theorem windows_eq_rises : windows y npoints = rises y npoints ↔ AllWindows y npoints := by
  unfold windows AllWindows
  rw [List.filter_eq_self]
  simp only [decide_eq_true_iff]

theorem take_windows {maxmins : Int} (hmax : ((rises y npoints).length : Int) ≤ maxmins) :
    (windows y npoints).take maxmins.toNat = windows y npoints := by
  refine List.take_of_length_le ?_
  have hle : (windows y npoints).length ≤ (rises y npoints).length := List.length_filter_le _ _
  omega

/-- The rises are found if and only if all of them are looked for. -/
theorem finds_rises_iff (hx : Spaced x h npoints) (hh : 0 < h)
    (hy : ∀ i : Nat, (i : Int) < npoints → y i ≠ 0) {maxmins : Int}
    (hmax : ((rises y npoints).length : Int) ≤ maxmins) :
    (∃ as, get_positive_axis_crossings x y npoints maxmins = some as ∧
      Finds x (rises y npoints) as) ↔ AllWindows y npoints := by
  rw [get_positive_eq hx hy, take_windows hmax]
  constructor
  · rintro ⟨as, has, -, hfound⟩
    cases has
    have hlength := hfound.length_eq
    rw [List.length_map] at hlength
    exact windows_eq_rises.mp ((List.filter_sublist).eq_of_length hlength.symm)
  · intro hall
    refine ⟨_, rfl, ?_⟩
    rw [← windows_eq_rises.mpr hall]
    exact finds_windows hx hh

theorem falls_eq (y : Nat → ℝ) (npoints : Int) :
    falls y npoints = rises (fun i => -y i) npoints := by
  unfold falls rises
  simp only [Left.neg_neg_iff, Left.neg_pos_iff]

/-- Rises and falls together. -/
theorem isolated_iff (y : Nat → ℝ) (npoints : Int) :
    Isolated y npoints ↔ AllWindows y npoints ∧ AllWindows (fun i => -y i) npoints := by
  unfold Isolated AllWindows
  simp only [mem_rises, Left.neg_neg_iff, Left.neg_pos_iff]
  constructor
  · intro hisolated
    refine ⟨fun i hi => ?_, fun i hi => ?_⟩
    · obtain ⟨hlt, hneg, hpos⟩ := hi
      obtain ⟨hone, hsame⟩ := hisolated i hlt (mul_neg_of_neg_of_pos hneg hpos)
      exact ⟨hone, (neg_iff_neg_of_mul_pos hsame).mpr hneg⟩
    · obtain ⟨hlt, hpos, hneg⟩ := hi
      obtain ⟨hone, hsame⟩ := hisolated i hlt (mul_neg_of_pos_of_neg hpos hneg)
      exact ⟨hone, (pos_iff_pos_of_mul_pos hsame).mpr hpos⟩
  · rintro ⟨hrises, hfalls⟩ i hlt hchange
    rcases mul_neg_iff.mp hchange with ⟨hpos, hneg⟩ | ⟨hneg, hpos⟩
    · obtain ⟨hone, hlast⟩ := hfalls i ⟨hlt, hpos, hneg⟩
      exact ⟨hone, mul_pos hlast hpos⟩
    · obtain ⟨hone, hlast⟩ := hrises i ⟨hlt, hneg, hpos⟩
      exact ⟨hone, mul_pos_of_neg_of_neg hlast hneg⟩

/-! ## §3  Rises and sets of the moon -/

/-- `(long) d` -/
def toLong (d : ℝ) : Int := if 0 ≤ d then ⌊d⌋ else ⌈d⌉

section Moon

-- The sine of the moon's altitude at a time, as `MoonTimes_getSinAltitude` has it for the place
-- and the modified Julian date of that time.
variable (sinAltitude : Int → ℝ)

/-- `DateTime_seconds_difference (start, end) / interval`; the difference is an `int`, and exact for
windows of less than 2^31 seconds. -/
def moonPoints (start stop interval : Int) : Int := (stop - start).tdiv interval

/-- `i * interval`, an `int` within such a window. -/
def moonX (interval : Int) (i : Nat) : ℝ := ((i * interval : Int) : ℝ)

def moonY (start interval : Int) (i : Nat) : ℝ := sinAltitude (start + i * interval)

/-- `MoonTimes_get_moon_rises`: the times of the events. -/
def get_moon_rises (start stop interval max_events : Int) : Option (List Int) := do
  let d_events ← get_positive_axis_crossings (moonX interval) (moonY sinAltitude start interval)
    (moonPoints start stop interval) max_events
  return d_events.map fun d => start + toLong d

/-- `MoonTimes_get_moon_sets` -/
def get_moon_sets (start stop interval max_events : Int) : Option (List Int) := do
  let d_events ← get_negative_axis_crossings (moonX interval) (moonY sinAltitude start interval)
    (moonPoints start stop interval) max_events
  return d_events.map fun d => start + toLong d

end Moon

/-- There is an event in each of the steps. -/
def MissesNone (start interval : Int) (is : List Nat) (events : Option (List Int)) : Prop :=
  ∃ es, events = some es ∧ ∀ i ∈ is, ∃ e ∈ es,
    start + i * interval ≤ e ∧ e ≤ start + (i + 1) * interval

variable {interval : Int}

theorem spaced_moonX (interval npoints : Int) : Spaced (moonX interval) interval npoints := by
  intro i _
  unfold moonX
  push_cast
  ring

theorem toLong_mem {i : Nat} {d : ℝ} (hinterval : 0 < interval)
    (hd : moonX interval i ≤ d ∧ d < moonX interval (i + 1)) :
    i * interval ≤ toLong d ∧ toLong d < (i + 1) * interval := by
  have hnonneg : 0 ≤ d := by
    refine le_trans ?_ hd.1
    unfold moonX
    exact_mod_cast mul_nonneg (Int.natCast_nonneg i) hinterval.le
  unfold toLong
  rw [if_pos hnonneg, Int.le_floor, Int.floor_lt]
  refine ⟨hd.1, hd.2.trans_eq ?_⟩
  unfold moonX
  push_cast
  ring

/-- No rise of the moon is missed if and only if all of them are looked for. -/
theorem moon_rises_iff {sinAltitude : Int → ℝ} {start stop max_events : Int}
    (hinterval : 0 < interval)
    (hy : ∀ i : Nat, (i : Int) < moonPoints start stop interval →
      moonY sinAltitude start interval i ≠ 0)
    (hmax : ((rises (moonY sinAltitude start interval) (moonPoints start stop interval)).length :
      Int) ≤ max_events) :
    MissesNone start interval
        (rises (moonY sinAltitude start interval) (moonPoints start stop interval))
        (get_moon_rises sinAltitude start stop interval max_events) ↔
      AllWindows (moonY sinAltitude start interval) (moonPoints start stop interval) := by
  have hx := spaced_moonX interval (moonPoints start stop interval)
  have hh : (0 : ℝ) < interval := Int.cast_pos.mpr hinterval
  have hevents : get_moon_rises sinAltitude start stop interval max_events =
      some (((windows (moonY sinAltitude start interval) (moonPoints start stop interval)).map
        (guess (moonX interval) (moonY sinAltitude start interval) interval)).map
          fun d => start + toLong d) := by
    unfold get_moon_rises
    rw [get_positive_eq hx hy, take_windows hmax]
    rfl
  generalize moonY sinAltitude start interval = y at hmax hevents ⊢
  generalize moonPoints start stop interval = npoints at hx hmax hevents ⊢
  have hmem {i : Nat} (hi : i ∈ windows y npoints) :=
    toLong_mem hinterval (guess_mem hx hh hi)
  constructor
  · rintro ⟨es, hes, hfound⟩ i hi
    cases hevents.symm.trans hes
    obtain ⟨e, he, hlow, hhigh⟩ := hfound i hi
    obtain ⟨d, hd, rfl⟩ := List.mem_map.mp he
    obtain ⟨j, hj, rfl⟩ := List.mem_map.mp hd
    obtain ⟨hlow', hhigh'⟩ := hmem hj
    have hrise := mem_rises.mp hi
    obtain ⟨hrise', hwindow⟩ := mem_windows.mp hj
    -- an event of another rise lies in another step
    have hbefore : i < j + 1 := by
      have hlt : (i : Int) * interval < (j + 1) * interval := by linarith
      exact_mod_cast lt_of_mul_lt_mul_right hlt hinterval.le
    have hbehind : j ≤ i + 1 := by
      have hle : (j : Int) * interval ≤ (i + 1) * interval := by linarith
      exact_mod_cast le_of_mul_le_mul_right hle hinterval
    have hne : j ≠ i + 1 := by
      rintro rfl
      exact lt_asymm hrise.2.2 (mem_rises.mp hrise').2.1
    obtain rfl : j = i := by omega
    exact hwindow
  · intro hall
    refine ⟨_, hevents, fun i hi => ?_⟩
    rw [← windows_eq_rises.mpr hall] at hi
    obtain ⟨hlow, hhigh⟩ := hmem hi
    refine ⟨_, List.mem_map_of_mem (List.mem_map_of_mem hi), ?_, ?_⟩ <;> linarith

theorem get_moon_sets_eq (sinAltitude : Int → ℝ) (start stop interval max_events : Int) :
    get_moon_sets sinAltitude start stop interval max_events =
      get_moon_rises (fun t => -sinAltitude t) start stop interval max_events := by
  unfold get_moon_sets get_moon_rises
  rw [get_negative_eq]
  rfl

/-- **Crossings are found completely**, and no rise or set of the moon is missed, if and only if
there is a sample of the same sign in front of every change of sign. -/
theorem crossings_complete_iff {x y : Nat → ℝ} {h : ℝ} {npoints maxmins : Int}
    (hx : Spaced x h npoints) (hh : 0 < h) (hy : ∀ i : Nat, (i : Int) < npoints → y i ≠ 0)
    (hrises : ((rises y npoints).length : Int) ≤ maxmins)
    (hfalls : ((falls y npoints).length : Int) ≤ maxmins)
    {sinAltitude : Int → ℝ} {start stop interval max_events : Int} (hinterval : 0 < interval)
    (hy' : ∀ i : Nat, (i : Int) < moonPoints start stop interval →
      moonY sinAltitude start interval i ≠ 0)
    (hrises' : ((rises (moonY sinAltitude start interval)
      (moonPoints start stop interval)).length : Int) ≤ max_events)
    (hfalls' : ((falls (moonY sinAltitude start interval)
      (moonPoints start stop interval)).length : Int) ≤ max_events) :
    (((∃ as, get_positive_axis_crossings x y npoints maxmins = some as ∧
        Finds x (rises y npoints) as) ∧
      ∃ as, get_negative_axis_crossings x y npoints maxmins = some as ∧
        Finds x (falls y npoints) as) ↔ Isolated y npoints) ∧
    ((MissesNone start interval
        (rises (moonY sinAltitude start interval) (moonPoints start stop interval))
        (get_moon_rises sinAltitude start stop interval max_events) ∧
      MissesNone start interval
        (falls (moonY sinAltitude start interval) (moonPoints start stop interval))
        (get_moon_sets sinAltitude start stop interval max_events)) ↔
      Isolated (moonY sinAltitude start interval) (moonPoints start stop interval)) := by
  have hneg (i : Nat) (hi : (i : Int) < npoints) : -y i ≠ 0 := neg_ne_zero.mpr (hy i hi)
  have hneg' (i : Nat) (hi : (i : Int) < moonPoints start stop interval) :
      moonY (fun t => -sinAltitude t) start interval i ≠ 0 := neg_ne_zero.mpr (hy' i hi)
  rw [falls_eq] at hfalls hfalls'
  rw [falls_eq, falls_eq, isolated_iff, isolated_iff]
  constructor
  · rw [finds_rises_iff hx hh hy hrises, get_negative_eq, finds_rises_iff hx hh hneg hfalls]
  · rw [moon_rises_iff hinterval hy' hrises', get_moon_sets_eq]
    exact and_congr_right' (moon_rises_iff hinterval hneg' hfalls')

/-- The samples of a straight line between 1 and 2. -/
def slope (t : Int) : ℝ := t - 3 / 2

theorem slope_samples : ∀ i : Nat, (i : Int) < moonPoints 0 4 1 → moonY slope 0 1 i ≠ 0 := by
  intro i hi
  have hlt : i < 4 := by
    have hpoints : moonPoints 0 4 1 = 4 := rfl
    omega
  unfold moonY slope
  interval_cases i <;> norm_num

theorem length_rises_le (y : Nat → ℝ) (npoints : Int) :
    (rises y npoints).length ≤ (npoints - 1).toNat := by
  refine (List.length_filter_le _ _).trans ?_
  rw [List.length_range]

theorem crossings_complete_iff_slope :
    (∃ as, get_positive_axis_crossings (moonX 1) (moonY slope 0 1) (moonPoints 0 4 1) 9 = some as ∧
      Finds (moonX 1) (rises (moonY slope 0 1) (moonPoints 0 4 1)) as) ∧
    MissesNone 0 1 (rises (moonY slope 0 1) (moonPoints 0 4 1)) (get_moon_rises slope 0 4 1 9) := by
  have hrises : ((rises (moonY slope 0 1) (moonPoints 0 4 1)).length : Int) ≤ 9 := by
    have hle := length_rises_le (moonY slope 0 1) (moonPoints 0 4 1)
    have hpoints : (moonPoints 0 4 1 - 1).toNat = 3 := rfl
    omega
  have hfalls : ((falls (moonY slope 0 1) (moonPoints 0 4 1)).length : Int) ≤ 9 := by
    have hle := length_rises_le (fun i => -moonY slope 0 1 i) (moonPoints 0 4 1)
    have hpoints : (moonPoints 0 4 1 - 1).toNat = 3 := rfl
    rw [falls_eq]
    omega
  have hisolated : Isolated (moonY slope 0 1) (moonPoints 0 4 1) := by
    intro i hi
    have hlt : i < 3 := by
      have hpoints : moonPoints 0 4 1 = 4 := rfl
      omega
    unfold moonY slope
    interval_cases i <;> norm_num
  obtain ⟨hfinds, hmoon⟩ := crossings_complete_iff (spaced_moonX 1 (moonPoints 0 4 1))
    (Int.cast_pos.mpr one_pos) slope_samples hrises hfalls one_pos slope_samples hrises hfalls
  exact ⟨(hfinds.mpr hisolated).1, (hmoon.mpr hisolated).1⟩

/-- A rise in the first step is found neither by the scan nor for the moon. -/
theorem first_rise_missed : ∃ sinAltitude : Int → ℝ,
    (∀ i : Nat, (i : Int) < moonPoints 0 2 1 → moonY sinAltitude 0 1 i ≠ 0) ∧
    ((rises (moonY sinAltitude 0 1) (moonPoints 0 2 1)).length : Int) ≤ 9 ∧
    (¬ ∃ as, get_positive_axis_crossings (moonX 1) (moonY sinAltitude 0 1)
      (moonPoints 0 2 1) 9 = some as ∧
        Finds (moonX 1) (rises (moonY sinAltitude 0 1) (moonPoints 0 2 1)) as) ∧
    ¬ MissesNone 0 1 (rises (moonY sinAltitude 0 1) (moonPoints 0 2 1))
      (get_moon_rises sinAltitude 0 2 1 9) := by
  have hnonzero (i : Nat) (hi : (i : Int) < moonPoints 0 2 1) :
      moonY (fun t => (t : ℝ) - 1 / 2) 0 1 i ≠ 0 := by
    have hlt : i < 2 := by
      have hpoints : moonPoints 0 2 1 = 2 := rfl
      omega
    unfold moonY
    interval_cases i <;> norm_num
  have hlength : ((rises (moonY (fun t => (t : ℝ) - 1 / 2) 0 1) (moonPoints 0 2 1)).length : Int) ≤
      9 := by
    have hle := length_rises_le (moonY (fun t => (t : ℝ) - 1 / 2) 0 1) (moonPoints 0 2 1)
    have hpoints : (moonPoints 0 2 1 - 1).toNat = 1 := rfl
    omega
  have hmissed : ¬ AllWindows (moonY (fun t => (t : ℝ) - 1 / 2) 0 1) (moonPoints 0 2 1) := by
    intro hall
    refine absurd (hall 0 (mem_rises.mpr ⟨by decide, ?_, ?_⟩)).1 (by decide)
    · unfold moonY
      norm_num
    · unfold moonY
      norm_num
  refine ⟨fun t => t - 1 / 2, hnonzero, hlength, fun hfinds => hmissed ?_, fun hmoon => hmissed ?_⟩
  · exact (finds_rises_iff (spaced_moonX 1 _) (Int.cast_pos.mpr one_pos) hnonzero hlength).mp hfinds
  · exact (moon_rises_iff one_pos hnonzero hlength).mp hmoon

end

end Kbox.Solunar
