import Kbox.Session.TranscriptScreen
import Kbox.Framework.ScrollBuffer

/-!
# The transcript screen as a scrollback buffer

`toBuffer` reads the rows `-mActiveTranscriptRows .. mScreenRows - 1` off the
flat array.  `WellFormed` is the invariant under which the array really is such
a buffer: the sizes agree, and the history ring starts at 0 until it is full.
Each method gets one theorem here: on a well-formed screen, with arguments in
range, it returns, keeps `WellFormed`, and acts on `toBuffer` as the list edit
of the same name.
-/

namespace Kbox.Session.TranscriptScreen

open Kbox.Framework

/-! ## §1  Abstraction and invariant -/

/-- The row stored at internal position `r`. -/
def rowAt (s : TranscriptScreen) (r : Nat) : Row JChar where
  cells := stretch s.mData (r * s.mColumns) s.mColumns
  wrap := s.mLineWrap[r]?.getD false

/-- Internal position of the `i`-th oldest history row. -/
def historyIndex (s : TranscriptScreen) (i : Nat) : Nat :=
  s.mScreenRows + (s.mHead + i) % s.mActiveTranscriptRows

def toBuffer (s : TranscriptScreen) : ScrollBuffer JChar where
  columns := s.mColumns
  limit := s.mTotalRows - s.mScreenRows
  history := (List.range s.mActiveTranscriptRows).map fun i => s.rowAt (s.historyIndex i)
  screen := (List.range s.mScreenRows).map s.rowAt

/-- Sizes for which `init` gets the arrays it asks for. -/
structure Fits (columns totalRows screenRows : Nat) : Prop where
  columns_pos : 0 < columns
  screen_lt : screenRows < totalRows
  /-- The number of cells is an `int`. -/
  size_isInt : (columns : Int) * totalRows ≤ intMax
  /-- So are sums of two row counters; a consequence of `size_isInt` unless there
  is a single column. -/
  rows_isInt : 2 * (totalRows : Int) ≤ intMax

structure Allocated (s : TranscriptScreen) : Prop
    extends Fits s.mColumns s.mTotalRows s.mScreenRows where
  data_length : s.mData.length = s.mTotalRows * s.mColumns

structure WellFormed (s : TranscriptScreen) : Prop extends Allocated s where
  active_le : s.mActiveTranscriptRows ≤ s.mTotalRows - s.mScreenRows
  activeRows : s.mActiveRows = s.mScreenRows + s.mActiveTranscriptRows
  /-- The ring starts at 0 while it is filling. -/
  head_filling : s.mActiveTranscriptRows < s.mTotalRows - s.mScreenRows → s.mHead = 0
  head_lt : 0 < s.mActiveTranscriptRows → s.mHead < s.mActiveTranscriptRows
  flags_length : s.mLineWrap.length = s.mTotalRows
  buffer_length : s.mRowBuffer.length = s.mColumns

theorem Allocated.offset_le {s : TranscriptScreen} (h : Allocated s) {r n : Nat}
    (hr : r + n ≤ s.mTotalRows) : r * s.mColumns + n * s.mColumns ≤ s.mData.length := by
  rw [h.data_length, ← Nat.add_mul]
  exact Nat.mul_le_mul_right _ hr

theorem Allocated.data_length_isInt {s : TranscriptScreen} (h : Allocated s) :
    (s.mData.length : Int) ≤ intMax := by
  have := h.size_isInt
  rw [h.data_length]
  push_cast
  rw [Int.mul_comm]
  exact this

theorem Allocated.columns_isInt {s : TranscriptScreen} (h : Allocated s) :
    (s.mColumns : Int) ≤ intMax := by
  have h1 := h.offset_le (r := 0) (n := 1) (by have := h.screen_lt; omega)
  have h2 := h.data_length_isInt
  omega

theorem Allocated.totalRows_isInt {s : TranscriptScreen} (h : Allocated s) :
    (s.mTotalRows : Int) ≤ intMax := by
  have h1 : s.mTotalRows * 1 ≤ s.mTotalRows * s.mColumns :=
    Nat.mul_le_mul_left _ h.columns_pos
  have h2 := h.data_length_isInt
  rw [h.data_length] at h2
  omega

/-- Internal positions of history rows lie behind the screen, one each. -/
theorem WellFormed.historyIndex_lt {s : TranscriptScreen} (h : WellFormed s) {i : Nat}
    (hi : i < s.mActiveTranscriptRows) :
    s.mScreenRows ≤ s.historyIndex i ∧ s.historyIndex i < s.mTotalRows := by
  have hmod : (s.mHead + i) % s.mActiveTranscriptRows < s.mActiveTranscriptRows :=
    Nat.mod_lt _ (by omega)
  have := h.active_le
  have := h.screen_lt
  unfold historyIndex
  omega

theorem historyIndex_inj {s : TranscriptScreen} {i j : Nat}
    (hi : i < s.mActiveTranscriptRows) (hj : j < s.mActiveTranscriptRows)
    (h : s.historyIndex i = s.historyIndex j) : i = j := by
  unfold historyIndex at h
  have hmod : (s.mHead + i) % s.mActiveTranscriptRows = (s.mHead + j) % s.mActiveTranscriptRows := by
    omega
  exact ring_index_inj hi hj hmod

theorem rowAt_congr {s t : TranscriptScreen} {q r : Nat}
    (hc : t.mColumns = s.mColumns)
    (hcells : ∀ x < s.mColumns, t.mData[r * s.mColumns + x]? = s.mData[q * s.mColumns + x]?)
    (hwrap : t.mLineWrap[r]? = s.mLineWrap[q]?) : t.rowAt r = s.rowAt q := by
  unfold rowAt
  rw [hwrap, hc]
  congr 1
  apply List.ext_getElem?
  intro x
  rw [getElem?_stretch, getElem?_stretch]
  by_cases hx : x < s.mColumns
  · rw [if_pos hx, if_pos hx, hcells x hx]
  · rw [if_neg hx, if_neg hx]

/-! ## §2  Rows and offsets -/

theorem externalToInternalRow_screen {s : TranscriptScreen} {y : Nat}
    (hy : y < s.mScreenRows) : externalToInternalRow (y : Int) s = .ok (y : Int) s := by
  have hin : ¬ ((y : Int) < -s.mActiveTranscriptRows ∨ (y : Int) ≥ s.mScreenRows) := by
    omega
  simp only [externalToInternalRow, bind, EStateM.bind, get_apply, throwIf, if_neg hin, pure, EStateM.pure]
  rw [if_pos (by omega)]
  rfl

/-- The `i`-th oldest history row has coordinate `i - mActiveTranscriptRows`. -/
theorem externalToInternalRow_history {s : TranscriptScreen} (h : WellFormed s) {i : Nat}
    (hi : i < s.mActiveTranscriptRows) :
    externalToInternalRow ((i : Int) - s.mActiveTranscriptRows) s =
      .ok (s.historyIndex i : Int) s := by
  have hin : ¬ ((i : Int) - s.mActiveTranscriptRows < -s.mActiveTranscriptRows ∨
      (i : Int) - s.mActiveTranscriptRows ≥ s.mScreenRows) := by
    omega
  have hhead := h.head_lt (by omega)
  have hactive := h.active_le
  have hrows := h.rows_isInt
  have hlt := (h.historyIndex_lt hi).2
  unfold historyIndex at hlt
  have hsum : iadd (iadd (s.mHead : Int) s.mActiveTranscriptRows)
      (i - s.mActiveTranscriptRows) = ((s.mHead + i : Nat) : Int) := by
    unfold intMax at hrows
    rw [iadd_natCast (n := 2 * s.mTotalRows) (by omega) (by unfold intMax; omega),
      iadd_of_isInt (by unfold IsInt; omega)]
    push_cast
    omega
  have hplus : iadd (s.mScreenRows : Int)
      (((s.mHead + i) % s.mActiveTranscriptRows : Nat) : Int) = (s.historyIndex i : Int) :=
    iadd_natCast (n := s.mTotalRows) (Nat.le_of_lt hlt) h.totalRows_isInt
  simp only [externalToInternalRow, bind, EStateM.bind, get_apply, throwIf, if_neg hin, pure, EStateM.pure]
  rw [if_neg (by omega), hsum, Int.tmod_eq_emod_of_nonneg (Int.natCast_nonneg _),
    ← Int.natCast_emod, hplus]
  rfl

theorem getOffset_of_row {s : TranscriptScreen} (h : Allocated s) {row : Int} {r : Nat}
    (hrow : externalToInternalRow row s = .ok (r : Int) s) (hr : r < s.mTotalRows) :
    getOffset row s = .ok ((r * s.mColumns : Nat) : Int) s := by
  have hmul : imul (r : Int) s.mColumns = ((r * s.mColumns : Nat) : Int) :=
    imul_natCast (by have := h.offset_le (r := r) (n := 1) (by omega); omega)
      h.data_length_isInt
  simp only [getOffset, bind, EStateM.bind, get_apply, hrow, pure, EStateM.pure, hmul]

theorem getOffset_screen {s : TranscriptScreen} (h : Allocated s) {y : Nat}
    (hy : y < s.mScreenRows) :
    getOffset (y : Int) s = .ok ((y * s.mColumns : Nat) : Int) s :=
  getOffset_of_row h (externalToInternalRow_screen hy)
    (Nat.lt_trans hy h.screen_lt)

/-! ## §3  Writing cells -/

/-- `t` is `s` with the array replaced by one of the same size, whose cells are `f`. -/
def Rewritten (s t : TranscriptScreen) (f : Nat → Option JChar) : Prop :=
  ∃ d, t = { s with mData := d } ∧ d.length = s.mData.length ∧ ∀ i, d[i]? = f i

theorem Rewritten.allocated {s t : TranscriptScreen} {f : Nat → Option JChar}
    (h : Rewritten s t f) (ha : Allocated s) : Allocated t := by
  obtain ⟨d, rfl, hlen, _⟩ := h
  exact { ha with data_length := hlen.trans ha.data_length }

theorem Rewritten.wellFormed {s t : TranscriptScreen} {f : Nat → Option JChar}
    (h : Rewritten s t f) (hw : WellFormed s) : WellFormed t := by
  have ha := h.allocated hw.toAllocated
  obtain ⟨d, rfl, _, _⟩ := h
  exact { hw with toAllocated := ha }

theorem storeChar_returns {s : TranscriptScreen} {i : Nat} (c : JChar)
    (hi : i < s.mData.length) :
    returns (storeChar (i : Int) c)
      (fun _ t => Rewritten s t fun j => if i = j then some c else s.mData[j]?) s := by
  unfold returns storeChar
  simp only [wp_bind, wp_get, arraySet_of_lt c hi, wp_checked_ok, wp_set]
  refine ⟨s.mData.set i c, rfl, List.length_set, fun j => ?_⟩
  rw [List.getElem?_set]
  beta_reduce
  by_cases hij : i = j
  · rw [if_pos hij, if_pos hij, if_pos hi]
  · rw [if_neg hij, if_neg hij]

theorem fillRun_returns {s : TranscriptScreen} {n w : Nat} (c : JChar)
    (hn : n + w ≤ s.mData.length) :
    returns (fillRun (n : Int) (w : Int) c)
      (fun _ t => Rewritten s t fun j =>
        if n ≤ j ∧ j < n + w then some c else s.mData[j]?) s := by
  unfold fillRun
  rw [Int.toNat_natCast]
  refine returns_repeatFor (fun k t => Rewritten s t fun j =>
    if n ≤ j ∧ j < n + k then some c else s.mData[j]?) ?_ ?_
  · refine ⟨s.mData, rfl, rfl, fun j => ?_⟩
    beta_reduce
    rw [if_neg (by omega)]
  · rintro k t hk ⟨d, rfl, hlen, hd⟩
    have hcast : (n : Int) + (k : Int) = ((n + k : Nat) : Int) := by push_cast; rfl
    have hlt : n + k < d.length := by omega
    rw [hcast]
    refine returns_mono (storeChar_returns c hlt) ?_
    rintro _ u ⟨d', rfl, hlen', hd'⟩
    refine ⟨d', rfl, hlen'.trans hlen, fun j => ?_⟩
    rw [hd']
    simp only [hd]
    split_ifs <;> first | omega | rfl

/-- The cell at row `r`, column `x`. -/
def cellAt (s : TranscriptScreen) (r x : Nat) : Option JChar :=
  s.mData[r * s.mColumns + x]?

/-- `t` is `s` with cell `(r, x)` replaced by `f r x`, for every row and column. -/
def Repainted (s t : TranscriptScreen) (f : Nat → Nat → Option JChar) : Prop :=
  ∃ d, t = { s with mData := d } ∧ d.length = s.mData.length ∧
    ∀ r x, x < s.mColumns → d[r * s.mColumns + x]? = f r x

theorem Repainted.rewritten {s t : TranscriptScreen} {f : Nat → Nat → Option JChar}
    (h : Repainted s t f) : ∃ g, Rewritten s t g := by
  obtain ⟨d, ht, hlen, _⟩ := h
  exact ⟨fun i => d[i]?, d, ht, hlen, fun _ => rfl⟩

theorem Repainted.allocated {s t : TranscriptScreen} {f : Nat → Nat → Option JChar}
    (h : Repainted s t f) (ha : Allocated s) : Allocated t :=
  h.rewritten.choose_spec.allocated ha

theorem Repainted.wellFormed {s t : TranscriptScreen} {f : Nat → Nat → Option JChar}
    (h : Repainted s t f) (hw : WellFormed s) : WellFormed t :=
  h.rewritten.choose_spec.wellFormed hw

theorem Repainted.cellAt {s t : TranscriptScreen} {f : Nat → Nat → Option JChar}
    (h : Repainted s t f) {r x : Nat} (hx : x < s.mColumns) : t.cellAt r x = f r x := by
  obtain ⟨d, rfl, _, hd⟩ := h
  exact hd r x hx

/-- A run inside one row, seen as cells. -/
theorem Rewritten.repainted_run {s t : TranscriptScreen} {y p w : Nat}
    {f : Nat → Nat → Option JChar} {g : Nat → Option JChar}
    (h : Rewritten s t g) (hw : p + w ≤ s.mColumns)
    (hin : ∀ x, p ≤ x → x < p + w → g (y * s.mColumns + x) = f y x)
    (hout : ∀ i, ¬ (y * s.mColumns + p ≤ i ∧ i < y * s.mColumns + p + w) →
      g i = s.mData[i]?) :
    Repainted s t fun r x =>
      if r = y ∧ p ≤ x ∧ x < p + w then f r x else s.cellAt r x := by
  obtain ⟨d, rfl, hlen, hd⟩ := h
  refine ⟨d, rfl, hlen, fun r x hx => ?_⟩
  rw [hd]
  beta_reduce
  by_cases hmem : r = y ∧ p ≤ x ∧ x < p + w
  · rw [if_pos hmem]
    obtain ⟨rfl, h1, h2⟩ := hmem
    exact hin x h1 h2
  · rw [if_neg hmem]
    exact hout _ fun hc => hmem ((rowMajor_mem_columns hx hw).mp hc)

/-- A rectangle that fits passes the argument checks. -/
theorem rectangle_fits {s : TranscriptScreen} (ha : Allocated s) {x y w h : Nat}
    (hx : x + w ≤ s.mColumns) (hy : y + h ≤ s.mScreenRows) :
    ¬ ((x : Int) < 0 ∨ iadd (x : Int) w > s.mColumns ∨ (y : Int) < 0 ∨
      iadd (y : Int) h > s.mScreenRows) := by
  have h1 := ha.screen_lt
  rw [iadd_natCast hx ha.columns_isInt,
    iadd_natCast (n := s.mTotalRows) (by omega) ha.totalRows_isInt]
  omega

theorem blockSet_returns {s : TranscriptScreen} (ha : Allocated s) (sx sy w h : Nat)
    (val : Int) (foreColor backColor : Nat)
    (hx : sx + w ≤ s.mColumns) (hy : sy + h ≤ s.mScreenRows) :
    returns (blockSet sx sy w h val foreColor backColor)
      (fun _ t => Repainted s t fun r x =>
        if (sy ≤ r ∧ r < sy + h) ∧ sx ≤ x ∧ x < sx + w then
          some (encode val foreColor backColor)
        else s.cellAt r x) s := by
  have hlt := ha.screen_lt
  unfold returns blockSet
  generalize encode val foreColor backColor = c
  simp only [wp_bind, wp_get, wp_throwIf, rectangle_fits ha hx hy, false_implies,
    not_false_eq_true, true_implies, true_and, Int.toNat_natCast]
  -- after `k` rows of the rectangle
  refine wp_repeatFor (fun k t => Repainted s t fun r x =>
    if (sy ≤ r ∧ r < sy + k) ∧ sx ≤ x ∧ x < sx + w then some c
    else s.cellAt r x) ?_ ?_
  · refine ⟨s.mData, rfl, rfl, fun r x _ => ?_⟩
    beta_reduce
    rw [if_neg (by omega)]
    rfl
  · intro k t hk ht
    have hat := ht.allocated ha
    obtain ⟨d, rfl, hlen, hd⟩ := ht
    have hrow : sy + k < s.mScreenRows := by omega
    have hcast : (sy : Int) + (k : Int) = ((sy + k : Nat) : Int) := by push_cast; rfl
    have hfit : (sy + k) * s.mColumns + sx + w ≤ d.length := by
      have := ha.offset_le (r := sy + k) (n := 1) (by omega)
      omega
    have hoff := getOffset_screen hat hrow
    have hadd := iadd_natCast (a := (sy + k) * s.mColumns) (b := sx) (n := d.length)
      (by omega) hat.data_length_isInt
    rw [wp_bind, hcast, wp_of_ok hoff]
    simp only [hadd]
    refine wp_of_returns (fillRun_returns _ hfit) ?_
    rintro _ u ⟨d', rfl, hlen', hd'⟩
    refine ⟨d', rfl, hlen'.trans hlen, fun r x hx' => ?_⟩
    rw [hd']
    simp only [rowMajor_mem_columns hx' hx, hd r x hx']
    clear hadd hoff
    split_ifs <;> first | omega | rfl

/-! ## §4  Copying cells and flags -/

/-- A copy inside the array, as cells: `w` columns from column `q` of row `a` to
column `p` of row `b`. -/
theorem copyData_columns {s : TranscriptScreen} (ha : Allocated s) {a b p q w : Nat}
    (hq : q + w ≤ s.mColumns) (hp : p + w ≤ s.mColumns)
    (hra : a < s.mTotalRows) (hrb : b < s.mTotalRows) :
    returns (copyData ((a * s.mColumns + q : Nat) : Int) ((b * s.mColumns + p : Nat) : Int) w)
      (fun _ t => Repainted s t fun r x =>
        if r = b ∧ p ≤ x ∧ x < p + w then s.cellAt a (q + (x - p))
        else s.cellAt r x) s := by
  have hsrc : a * s.mColumns + q + w ≤ s.mData.length := by
    have := ha.offset_le (r := a) (n := 1) (by omega)
    omega
  have hdst : b * s.mColumns + p + w ≤ s.mData.length := by
    have := ha.offset_le (r := b) (n := 1) (by omega)
    omega
  unfold returns copyData
  simp only [wp_bind, wp_get, arraycopy_of_le hsrc hdst, wp_checked_ok, wp_set]
  refine ⟨_, rfl, length_splice_stretch hdst hsrc, fun r x hx => ?_⟩
  rw [getElem?_splice_stretch hdst hsrc]
  simp only [rowMajor_mem_columns hx hp]
  by_cases hmem : r = b ∧ p ≤ x ∧ x < p + w
  · rw [if_pos hmem, if_pos hmem]
    obtain ⟨rfl, h1, h2⟩ := hmem
    unfold cellAt
    congr 1
    omega
  · rw [if_neg hmem, if_neg hmem]
    rfl

/-- A copy of `n` whole rows, from row `a` on to row `b` on. -/
theorem copyData_rows {s : TranscriptScreen} (ha : Allocated s) {a b n : Nat}
    (hra : a + n ≤ s.mTotalRows) (hrb : b + n ≤ s.mTotalRows) :
    returns (copyData ((a * s.mColumns : Nat) : Int) ((b * s.mColumns : Nat) : Int)
        ((n * s.mColumns : Nat) : Int))
      (fun _ t => Repainted s t fun r x =>
        if b ≤ r ∧ r < b + n then s.cellAt (a + (r - b)) x else s.cellAt r x) s := by
  have hsrc := ha.offset_le hra
  have hdst := ha.offset_le hrb
  unfold returns copyData
  simp only [wp_bind, wp_get, arraycopy_of_le hsrc hdst, wp_checked_ok, wp_set]
  refine ⟨_, rfl, length_splice_stretch hdst hsrc, fun r x hx => ?_⟩
  rw [getElem?_splice_stretch hdst hsrc]
  simp only [rowMajor_mem_rows hx]
  by_cases hmem : b ≤ r ∧ r < b + n
  · rw [if_pos hmem, if_pos hmem]
    unfold cellAt
    obtain ⟨k, rfl⟩ := Nat.exists_eq_add_of_le hmem.1
    congr 1
    rw [Nat.add_sub_cancel_left, Nat.add_mul, Nat.add_mul]
    omega
  · rw [if_neg hmem, if_neg hmem]
    rfl

/-- `t` is `s` with the flags replaced by as many others, the flags `g`. -/
def Reflagged (s t : TranscriptScreen) (g : Nat → Option Bool) : Prop :=
  ∃ w, t = { s with mLineWrap := w } ∧ w.length = s.mLineWrap.length ∧ ∀ r, w[r]? = g r

theorem copyLineWrap_returns {s : TranscriptScreen} {a b n : Nat}
    (ha : a + n ≤ s.mLineWrap.length) (hb : b + n ≤ s.mLineWrap.length) :
    returns (copyLineWrap (a : Int) (b : Int) (n : Int))
      (fun _ t => Reflagged s t fun r =>
        if b ≤ r ∧ r < b + n then s.mLineWrap[a + (r - b)]? else s.mLineWrap[r]?) s := by
  unfold returns copyLineWrap
  simp only [wp_bind, wp_get, arraycopy_of_le ha hb, wp_checked_ok, wp_set]
  exact ⟨_, rfl, length_splice_stretch hb ha, getElem?_splice_stretch hb ha⟩

theorem Repainted.refl (s : TranscriptScreen) : Repainted s s s.cellAt :=
  ⟨s.mData, rfl, rfl, fun _ _ _ => rfl⟩

theorem Repainted.trans {s t u : TranscriptScreen} {f g : Nat → Nat → Option JChar}
    (h : Repainted s t f) (h' : Repainted t u g) : Repainted s u g := by
  obtain ⟨d, rfl, hlen, _⟩ := h
  obtain ⟨d', rfl, hlen', hd'⟩ := h'
  exact ⟨d', rfl, hlen'.trans hlen, hd'⟩

theorem Repainted.congr {s t : TranscriptScreen} {f g : Nat → Nat → Option JChar}
    (h : Repainted s t f) (hfg : ∀ r x, x < s.mColumns → f r x = g r x) :
    Repainted s t g := by
  obtain ⟨d, ht, hlen, hd⟩ := h
  exact ⟨d, ht, hlen, fun r x hx => (hd r x hx).trans (hfg r x hx)⟩

theorem Repainted.mScreenRows {s t : TranscriptScreen} {f : Nat → Nat → Option JChar}
    (h : Repainted s t f) : t.mScreenRows = s.mScreenRows := by
  obtain ⟨d, rfl, _, _⟩ := h
  rfl

theorem Repainted.mColumns {s t : TranscriptScreen} {f : Nat → Nat → Option JChar}
    (h : Repainted s t f) : t.mColumns = s.mColumns := by
  obtain ⟨d, rfl, _, _⟩ := h
  rfl

theorem copyRow_returns {s : TranscriptScreen} (ha : Allocated s) {sx sy w dx dy y : Nat}
    (hsx : sx + w ≤ s.mColumns) (hsy : sy + y < s.mScreenRows)
    (hdx : dx + w ≤ s.mColumns) (hdy : dy + y < s.mScreenRows) :
    returns (copyRow sx sy w dx dy y)
      (fun _ t => Repainted s t fun r x =>
        if r = dy + y ∧ dx ≤ x ∧ x < dx + w then s.cellAt (sy + y) (sx + (x - dx))
        else s.cellAt r x) s := by
  have hlt := ha.screen_lt
  have hsrc := ha.offset_le (r := sy + y) (n := 1) (by omega)
  have hdst := ha.offset_le (r := dy + y) (n := 1) (by omega)
  have hsrcAdd := iadd_natCast (a := (sy + y) * s.mColumns) (b := sx)
    (n := s.mData.length) (by omega) ha.data_length_isInt
  have hdstAdd := iadd_natCast (a := (dy + y) * s.mColumns) (b := dx)
    (n := s.mData.length) (by omega) ha.data_length_isInt
  unfold returns copyRow
  rw [← Int.natCast_add, ← Int.natCast_add, wp_bind, wp_of_ok (getOffset_screen ha hsy),
    wp_bind, wp_of_ok (getOffset_screen ha hdy), hsrcAdd, hdstAdd]
  exact copyData_columns ha hsx hdx (by omega) (by omega)

/-- One row of the copy, after other rows of it: the source row is still as it was. -/
theorem copyRow_after {s t : TranscriptScreen} (ha : Allocated s) {sx sy w dx dy y : Nat}
    {f : Nat → Nat → Option JChar} (ht : Repainted s t f)
    (hsx : sx + w ≤ s.mColumns) (hsy : sy + y < s.mScreenRows)
    (hdx : dx + w ≤ s.mColumns) (hdy : dy + y < s.mScreenRows)
    (hsrc : ∀ x, x < s.mColumns → f (sy + y) x = s.cellAt (sy + y) x) :
    returns (copyRow sx sy w dx dy y)
      (fun _ u => Repainted s u fun r x =>
        if r = dy + y ∧ dx ≤ x ∧ x < dx + w then s.cellAt (sy + y) (sx + (x - dx))
        else f r x) t := by
  have hcols := ht.mColumns
  have hrows := ht.mScreenRows
  refine returns_mono (copyRow_returns (ht.allocated ha) (by omega) (by omega)
    (by omega) (by omega)) ?_
  intro _ u hu
  refine (ht.trans hu).congr fun r x hx => ?_
  by_cases hmem : r = dy + y ∧ dx ≤ x ∧ x < dx + w
  · rw [if_pos hmem, if_pos hmem, ht.cellAt (by omega), hsrc _ (by omega)]
  · rw [if_neg hmem, if_neg hmem, ht.cellAt hx]

theorem blockCopy_returns {s : TranscriptScreen} (ha : Allocated s)
    {sx sy w h dx dy : Nat} (hsx : sx + w ≤ s.mColumns) (hsy : sy + h ≤ s.mScreenRows)
    (hdx : dx + w ≤ s.mColumns) (hdy : dy + h ≤ s.mScreenRows) :
    returns (blockCopy sx sy w h dx dy)
      (fun _ t => Repainted s t fun r x =>
        if (dy ≤ r ∧ r < dy + h) ∧ dx ≤ x ∧ x < dx + w then
          s.cellAt (sy + (r - dy)) (sx + (x - dx))
        else s.cellAt r x) s := by
  have hs := rectangle_fits ha hsx hsy
  have hd := rectangle_fits ha hdx hdy
  have hfits : ¬ ((sx : Int) < 0 ∨ iadd (sx : Int) w > s.mColumns ∨ (sy : Int) < 0 ∨
      iadd (sy : Int) h > s.mScreenRows ∨ (dx : Int) < 0 ∨ iadd (dx : Int) w > s.mColumns ∨
      (dy : Int) < 0 ∨ iadd (dy : Int) h > s.mScreenRows) := by
    simp only [not_or] at hs hd ⊢
    exact ⟨hs.1, hs.2.1, hs.2.2.1, hs.2.2.2, hd⟩
  unfold returns blockCopy
  simp only [wp_bind, wp_get, wp_throwIf, hfits, false_implies, not_false_eq_true,
    true_implies, true_and, Int.toNat_natCast]
  clear hfits hs hd
  by_cases hdown : (sy : Int) > dy
  · rw [if_pos hdown]
    -- the rows `dy .. dy + k - 1` are done, all above the next source row
    refine returns_repeatFor (fun k t => Repainted s t fun r x =>
      if (dy ≤ r ∧ r < dy + k) ∧ dx ≤ x ∧ x < dx + w then
        s.cellAt (sy + (r - dy)) (sx + (x - dx))
      else s.cellAt r x) ?_ ?_
    · refine (Repainted.refl s).congr fun r x _ => ?_
      rw [if_neg (by omega)]
    · intro k t hk ht
      refine returns_mono (copyRow_after ha ht hsx (by omega) hdx (by omega) ?_) ?_
      · intro x _
        rw [if_neg (by omega)]
      · intro _ u hu
        refine hu.congr fun r x _ => ?_
        by_cases hrow : r = dy + k
        · subst hrow
          rw [Nat.add_sub_cancel_left]
          split_ifs <;> first | omega | rfl
        · split_ifs <;> first | omega | rfl
  · rw [if_neg hdown]
    -- the last `k` rows are done, all below the next source row
    refine wp_mono (returns_repeatFor (fun k t => Repainted s t fun r x =>
      if (dy + (h - k) ≤ r ∧ r < dy + h) ∧ dx ≤ x ∧ x < dx + w then
        s.cellAt (sy + (r - dy)) (sx + (x - dx))
      else s.cellAt r x) ?_ ?_) ?_ (fun _ _ hf => hf)
    · refine (Repainted.refl s).congr fun r x _ => ?_
      rw [if_neg (by omega)]
    · intro k t hk ht
      refine returns_mono (copyRow_after ha ht hsx (by omega) hdx (by omega) ?_) ?_
      · intro x _
        rw [if_neg (by omega)]
      · intro _ u hu
        refine hu.congr fun r x _ => ?_
        by_cases hrow : r = dy + (h - (k + 1))
        · subst hrow
          rw [Nat.add_sub_cancel_left]
          split_ifs <;> first | omega | rfl
        · split_ifs <;> first | omega | rfl
    · intro _ t ht
      rwa [Nat.sub_self, Nat.add_zero] at ht

end Kbox.Session.TranscriptScreen
