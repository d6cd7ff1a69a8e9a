import Kbox.Session.TranscriptScreenSpec

/-!
# Every method of the screen is a list edit

The cell-level specifications are read back through `toBuffer`: drawing methods
rewrite rows in place, `scroll` moves the top row of its region to the history,
and `init` starts a blank buffer.
-/

namespace Kbox.Session.TranscriptScreen

open Kbox.Framework

/-! ## §1  Rows in place -/

theorem getElem?_cells_rowAt (s : TranscriptScreen) (r x : Nat) :
    (s.rowAt r).cells[x]? = if x < s.mColumns then s.cellAt r x else none :=
  getElem?_stretch _ _ _ _

theorem length_rowAt {s : TranscriptScreen} (ha : Allocated s) {r : Nat}
    (hr : r < s.mTotalRows) : (s.rowAt r).cells.length = s.mColumns := by
  have := ha.offset_le (r := r) (n := 1) (by omega)
  exact length_stretch (by omega)

/-- Internal row `r` holds the row with coordinate `row`. -/
def Locates (s : TranscriptScreen) (row : Int) (r : Nat) : Prop :=
  (row = r ∧ r < s.mScreenRows) ∨
    ∃ i < s.mActiveTranscriptRows, row = (i : Int) - s.mActiveTranscriptRows ∧
      r = s.historyIndex i

theorem locates_screen {s : TranscriptScreen} {y : Nat} (hy : y < s.mScreenRows) :
    Locates s y y := Or.inl ⟨rfl, hy⟩

theorem exists_locates {s : TranscriptScreen} {row : Int}
    (hlo : -(s.mActiveTranscriptRows : Int) ≤ row) (hhi : row < s.mScreenRows) :
    ∃ r, Locates s row r := by
  by_cases hneg : row < 0
  · refine ⟨s.historyIndex (row + s.mActiveTranscriptRows).toNat, Or.inr
      ⟨(row + s.mActiveTranscriptRows).toNat, by omega, by omega, rfl⟩⟩
  · exact ⟨row.toNat, Or.inl ⟨by omega, by omega⟩⟩

theorem Locates.externalToInternalRow {s : TranscriptScreen} (h : WellFormed s) {row : Int}
    {r : Nat} (hr : Locates s row r) : externalToInternalRow row s = .ok (r : Int) s := by
  rcases hr with ⟨rfl, hlt⟩ | ⟨i, hi, rfl, rfl⟩
  · exact externalToInternalRow_screen hlt
  · exact externalToInternalRow_history h hi

theorem Locates.lt {s : TranscriptScreen} (h : WellFormed s) {row : Int} {r : Nat}
    (hr : Locates s row r) : r < s.mTotalRows := by
  rcases hr with ⟨_, hlt⟩ | ⟨i, hi, _, rfl⟩
  · exact Nat.lt_trans hlt h.screen_lt
  · exact (h.historyIndex_lt hi).2

theorem Locates.ge_of_neg {s : TranscriptScreen} (h : WellFormed s) {row : Int} {r : Nat}
    (hr : Locates s row r) (hneg : row < 0) : s.mScreenRows ≤ r := by
  rcases hr with ⟨rfl, _⟩ | ⟨i, hi, _, rfl⟩
  · omega
  · exact (h.historyIndex_lt hi).1

theorem Locates.row? {s : TranscriptScreen} {row : Int} {r : Nat}
    (hr : Locates s row r) : s.toBuffer.row? row = some (s.rowAt r) := by
  unfold ScrollBuffer.row? toBuffer
  rcases hr with ⟨rfl, hlt⟩ | ⟨i, hi, rfl, rfl⟩
  · rw [if_neg (by omega), Int.toNat_natCast, List.getElem?_map,
      List.getElem?_range hlt]
    rfl
  · simp only [List.length_map, List.length_range]
    rw [if_pos (by omega), if_neg (by omega), List.getElem?_map,
      List.getElem?_range (by omega)]
    simp only [Option.map_some]
    congr 3
    omega

/-- `t` has the same rows in the same places, each with new contents. -/
def SameLayout (s t : TranscriptScreen) : Prop :=
  ∃ d w, t = { s with mData := d, mLineWrap := w }

theorem Repainted.sameLayout {s t : TranscriptScreen} {f : Nat → Nat → Option JChar}
    (h : Repainted s t f) : SameLayout s t := by
  obtain ⟨d, rfl, _, _⟩ := h
  exact ⟨d, s.mLineWrap, rfl⟩

theorem Reflagged.sameLayout {s t : TranscriptScreen} {g : Nat → Option Bool}
    (h : Reflagged s t g) : SameLayout s t := by
  obtain ⟨w, rfl, _, _⟩ := h
  exact ⟨s.mData, w, rfl⟩

theorem Reflagged.rowAt {s t : TranscriptScreen} {g : Nat → Option Bool}
    (h : Reflagged s t g) (r : Nat) :
    t.rowAt r = { s.rowAt r with wrap := (g r).getD false } := by
  obtain ⟨w, rfl, _, hg⟩ := h
  rw [← hg]
  rfl

/-- Rewriting one row rewrites it in the buffer, and no other. -/
theorem toBuffer_modifyRow {s t : TranscriptScreen} (h : WellFormed s) {row : Int}
    {r : Nat} (hr : Locates s row r) (hl : SameLayout s t) (f : Row JChar → Row JChar)
    (hf : t.rowAt r = f (s.rowAt r))
    (hother : ∀ q, q ≠ r → t.rowAt q = s.rowAt q) :
    t.toBuffer = s.toBuffer.modifyRow row f := by
  obtain ⟨d, w, rfl⟩ := hl
  rcases hr with ⟨rfl, hlt⟩ | ⟨k, hk, rfl, rfl⟩
  · unfold toBuffer ScrollBuffer.modifyRow
    rw [if_neg (by omega), Int.toNat_natCast]
    congr 1
    · apply List.map_congr_left
      intro i hi
      rw [List.mem_range] at hi
      have := (h.historyIndex_lt hi).1
      exact hother (s.historyIndex i) (by omega)
    · exact map_range_eq_modify (fun _ => hf) (fun i _ hi => hother i hi)
  · unfold toBuffer ScrollBuffer.modifyRow
    simp only [List.length_map, List.length_range]
    rw [if_pos (by omega), if_neg (by omega),
      show (s.mActiveTranscriptRows + ((k : Int) - s.mActiveTranscriptRows)).toNat = k by
        omega]
    congr 1
    · refine map_range_eq_modify (fun _ => hf) (fun i hi hik => ?_)
      exact hother (s.historyIndex i) fun heq => hik (historyIndex_inj hi hk heq)
    · apply List.map_congr_left
      intro y hy
      rw [List.mem_range] at hy
      have := (h.historyIndex_lt hk).1
      exact hother y (by omega)

/-! ## §2  Rectangles -/

theorem cell?_toBuffer {s : TranscriptScreen} {y x : Nat} (hy : y < s.mScreenRows)
    (hx : x < s.mColumns) : s.toBuffer.cell? y x = s.cellAt y x := by
  unfold ScrollBuffer.cell? toBuffer
  rw [List.getElem?_map, List.getElem?_range hy]
  simp only [Option.map_some, Option.bind_some, getElem?_cells_rowAt, if_pos hx]

theorem cellAt_isSome {s : TranscriptScreen} (ha : Allocated s) {r x : Nat}
    (hr : r < s.mTotalRows) (hx : x < s.mColumns) : ∃ c, s.cellAt r x = some c := by
  have hlt : r * s.mColumns + x < s.mData.length := by
    rw [ha.data_length]
    exact rowMajor_lt hx hr
  exact ⟨s.mData[r * s.mColumns + x], List.getElem?_eq_getElem hlt⟩

theorem Repainted.wrap_rowAt {s t : TranscriptScreen} {f : Nat → Nat → Option JChar}
    (h : Repainted s t f) (r : Nat) : (t.rowAt r).wrap = (s.rowAt r).wrap := by
  obtain ⟨d, rfl, _, _⟩ := h
  rfl

theorem Repainted.getElem?_rowAt {s t : TranscriptScreen} {f : Nat → Nat → Option JChar}
    (h : Repainted s t f) (r x : Nat) :
    (t.rowAt r).cells[x]? = if x < s.mColumns then f r x else none := by
  rw [getElem?_cells_rowAt, h.mColumns]
  by_cases hx : x < s.mColumns
  · rw [if_pos hx, if_pos hx, h.cellAt hx]
  · rw [if_neg hx, if_neg hx]

/-- Repainting a screen rectangle overwrites it in the buffer. -/
theorem Repainted.toBuffer_overwrite {s t : TranscriptScreen} (hw : WellFormed s)
    {sx sy w h : Nat} {f : Nat → Nat → Option JChar} (g : Nat → Nat → JChar → JChar)
    (hy : sy + h ≤ s.mScreenRows)
    (ht : Repainted s t fun r x =>
      if (sy ≤ r ∧ r < sy + h) ∧ sx ≤ x ∧ x < sx + w then f r x else s.cellAt r x)
    (hf : ∀ r x, sy ≤ r → r < sy + h → sx ≤ x → x < sx + w → x < s.mColumns →
      f r x = (s.cellAt r x).map (g (r - sy) (x - sx))) :
    t.toBuffer = s.toBuffer.overwrite sx sy w h g := by
  have hrow : ∀ r, t.rowAt r = if sy ≤ r ∧ r < sy + h then
      { s.rowAt r with cells := (s.rowAt r).cells.mapIdx fun x c =>
          if sx ≤ x ∧ x < sx + w then g (r - sy) (x - sx) c else c }
      else s.rowAt r := by
    intro r
    by_cases hr : sy ≤ r ∧ r < sy + h
    · rw [if_pos hr]
      refine Row.ext_getElem? (ht.wrap_rowAt r) fun x => ?_
      rw [ht.getElem?_rowAt, List.getElem?_mapIdx, getElem?_cells_rowAt]
      by_cases hx : x < s.mColumns
      · rw [if_pos hx, if_pos hx]
        by_cases hin : sx ≤ x ∧ x < sx + w
        · rw [if_pos ⟨hr, hin⟩, hf r x hr.1 hr.2 hin.1 hin.2 hx]
          simp only [if_pos hin]
        · rw [if_neg fun hc => hin hc.2]
          simp only [if_neg hin, Option.map_id']
      · rw [if_neg hx, if_neg hx]
        rfl
    · rw [if_neg hr]
      refine Row.ext_getElem? (ht.wrap_rowAt r) fun x => ?_
      have hout : ¬ ((sy ≤ r ∧ r < sy + h) ∧ sx ≤ x ∧ x < sx + w) := fun hc => hr hc.1
      rw [ht.getElem?_rowAt, getElem?_cells_rowAt]
      simp only [if_neg hout]
  obtain ⟨d, wr, rfl⟩ := ht.sameLayout
  unfold ScrollBuffer.overwrite toBuffer
  congr 1
  · apply List.map_congr_left
    intro i hi
    rw [List.mem_range] at hi
    have := (hw.historyIndex_lt hi).1
    refine (hrow (s.historyIndex i)).trans (if_neg ?_)
    omega
  · apply List.ext_getElem
    · simp only [List.length_map, List.length_range, List.length_mapIdx]
    · intro y _ _
      simp only [List.getElem_map, List.getElem_range, List.getElem_mapIdx]
      exact hrow y

theorem blockSet_toBuffer {s : TranscriptScreen} (hw : WellFormed s) {sx sy w h : Nat}
    (val : Int) (foreColor backColor : Nat)
    (hx : sx + w ≤ s.mColumns) (hy : sy + h ≤ s.mScreenRows) :
    returns (blockSet sx sy w h val foreColor backColor)
      (fun _ t => WellFormed t ∧ t.toBuffer =
        s.toBuffer.blockSet sx sy w h (encode val foreColor backColor)) s := by
  refine returns_mono (blockSet_returns hw.toAllocated sx sy w h val foreColor backColor hx hy) ?_
  intro _ t ht
  refine ⟨ht.wellFormed hw, ht.toBuffer_overwrite hw (fun _ _ _ => _) hy ?_⟩
  intro r x _ hr _ _ hxc
  obtain ⟨c, hc⟩ := cellAt_isSome hw.toAllocated (r := r) (x := x)
    (by have := hw.screen_lt; omega) hxc
  rw [hc]
  rfl

theorem blockCopy_toBuffer {s : TranscriptScreen} (hw : WellFormed s)
    {sx sy w h dx dy : Nat} (hsx : sx + w ≤ s.mColumns) (hsy : sy + h ≤ s.mScreenRows)
    (hdx : dx + w ≤ s.mColumns) (hdy : dy + h ≤ s.mScreenRows) :
    returns (blockCopy sx sy w h dx dy)
      (fun _ t => WellFormed t ∧
        t.toBuffer = s.toBuffer.blockCopy sx sy w h dx dy) s := by
  refine returns_mono (blockCopy_returns hw.toAllocated hsx hsy hdx hdy) ?_
  intro _ t ht
  refine ⟨ht.wellFormed hw, ht.toBuffer_overwrite hw _ hdy ?_⟩
  intro r x hr1 hr2 hx1 hx2 hxc
  have hlt := hw.screen_lt
  obtain ⟨c, hc⟩ := cellAt_isSome hw.toAllocated (r := r) (x := x) (by omega) hxc
  obtain ⟨c', hc'⟩ := cellAt_isSome hw.toAllocated (r := sy + (r - dy))
    (x := sx + (x - dx)) (by omega) (by omega)
  rw [cell?_toBuffer (by omega) (by omega), hc, hc']
  rfl

/-! ## §3  Single cells and flags -/

theorem set_toBuffer {s : TranscriptScreen} (hw : WellFormed s) {x : Nat} {row : Int}
    (b : Int) (foreColor backColor : Nat) (hx : x < s.mColumns)
    (hlo : -(s.mActiveTranscriptRows : Int) ≤ row) (hhi : row < s.mScreenRows) :
    returns (set x row b foreColor backColor)
      (fun _ t => WellFormed t ∧
        t.toBuffer = s.toBuffer.set x row (encode b foreColor backColor)) s := by
  obtain ⟨r, hr⟩ := exists_locates hlo hhi
  have hrlt := hr.lt hw
  have hlt : r * s.mColumns + x < s.mData.length := by
    rw [hw.data_length]
    exact rowMajor_lt hx hrlt
  have hadd : iadd ((r * s.mColumns : Nat) : Int) x = ((r * s.mColumns + x : Nat) : Int) :=
    iadd_natCast (Nat.le_of_lt hlt) hw.data_length_isInt
  unfold returns set
  rw [wp_bind, wp_of_ok (getOffset_of_row hw.toAllocated (hr.externalToInternalRow hw) hrlt),
    hadd]
  generalize encode b foreColor backColor = c
  refine wp_of_returns (storeChar_returns c hlt) ?_
  intro _ t ht
  have hpaint : Repainted s t fun q y =>
      if q = r ∧ x ≤ y ∧ y < x + 1 then some c else s.cellAt q y := by
    refine ht.repainted_run (by omega) ?_ ?_
    · intro y h1 h2
      rw [if_pos (by omega)]
    · intro i hi
      rw [if_neg (by omega)]
  refine ⟨ht.wellFormed hw, toBuffer_modifyRow hw hr hpaint.sameLayout _ ?_ ?_⟩
  · refine Row.ext_getElem? (hpaint.wrap_rowAt r) fun y => ?_
    have hlen : (s.rowAt r).cells.length = s.mColumns := length_rowAt hw.toAllocated hrlt
    simp only [hpaint.getElem?_rowAt, List.getElem?_set, getElem?_cells_rowAt, hlen,
      true_and]
    clear hadd ht hpaint
    split_ifs <;> first | omega | rfl
  · intro q hq
    refine Row.ext_getElem? (hpaint.wrap_rowAt q) fun y => ?_
    have hout : ¬ (q = r ∧ x ≤ y ∧ y < x + 1) := fun hc => hq hc.1
    rw [hpaint.getElem?_rowAt, getElem?_cells_rowAt]
    simp only [if_neg hout]

theorem setLineWrap_toBuffer {s : TranscriptScreen} (hw : WellFormed s) {row : Int}
    (hlo : -(s.mActiveTranscriptRows : Int) ≤ row) (hhi : row < s.mScreenRows) :
    returns (setLineWrap row)
      (fun _ t => WellFormed t ∧ t.toBuffer = s.toBuffer.setLineWrap row) s := by
  obtain ⟨r, hr⟩ := exists_locates hlo hhi
  have hrlt := hr.lt hw
  have hlt : r < s.mLineWrap.length := by
    rw [hw.flags_length]
    exact hrlt
  unfold returns setLineWrap
  rw [wp_bind, wp_of_ok (hr.externalToInternalRow hw)]
  simp only [wp_bind, wp_get, arraySet_of_lt true hlt, wp_checked_ok, wp_set]
  have hflag : Reflagged s { s with mLineWrap := s.mLineWrap.set r true } fun q =>
      if r = q then some true else s.mLineWrap[q]? := by
    refine ⟨_, rfl, List.length_set, fun q => ?_⟩
    rw [List.getElem?_set, if_pos hlt]
  refine ⟨{ hw with flags_length := List.length_set.trans hw.flags_length },
    toBuffer_modifyRow hw hr hflag.sameLayout _ ?_ ?_⟩
  · rw [hflag.rowAt, if_pos rfl]
    rfl
  · intro q hq
    rw [hflag.rowAt, if_neg (Ne.symm hq)]
    rfl

/-! ## §4  Scrolling -/

theorem consistencyCheck_returns {s : TranscriptScreen} (hw : WellFormed s) :
    returns consistencyCheck (fun _ t => t = s) s := by
  have hactive := hw.active_le
  have hlt := hw.screen_lt
  have hrows : iadd (s.mScreenRows : Int) s.mActiveTranscriptRows = (s.mActiveRows : Int) := by
    rw [iadd_natCast (n := s.mTotalRows) (by omega) hw.totalRows_isInt, hw.activeRows]
  have hsize : imul (s.mTotalRows : Int) s.mColumns = (s.mData.length : Int) := by
    rw [imul_natCast (n := s.mData.length) hw.data_length.ge hw.data_length_isInt,
      hw.data_length]
  unfold returns consistencyCheck checkPositive checkRange checkEqual
  simp only [wp_bind, wp_get, wp_throwIf, wp_ite, hrows, hsize, hw.flags_length,
    hw.buffer_length, ne_eq, not_true_eq_false, false_implies, not_false_eq_true,
    true_implies, true_and, and_true, implies_true]
  clear hrows hsize
  refine ⟨by omega, fun _ => ⟨by omega, fun _ => ⟨by omega, fun _ => ⟨?_, ?_⟩⟩⟩⟩
  · intro hzero
    have hhead := hw.head_filling (by omega)
    exact ⟨fun hne => hne (by omega), fun _ => by omega⟩
  · intro hpos
    have hhead := hw.head_lt (by omega)
    exact ⟨by omega, fun _ => by omega⟩

/-- The rows after `rollTranscript`: one more in use, or the ring turned by one. -/
def rolled (s : TranscriptScreen) : TranscriptScreen :=
  if s.mActiveRows < s.mTotalRows then
    { s with
      mActiveRows := s.mActiveRows + 1
      mActiveTranscriptRows := s.mActiveTranscriptRows + 1
      mHead := s.mHead % (s.mActiveTranscriptRows + 1) }
  else { s with mHead := (s.mHead + 1) % s.mActiveTranscriptRows }

theorem rollTranscript_returns {s : TranscriptScreen} (hw : WellFormed s) :
    returns rollTranscript (fun _ t => t = s.rolled) s := by
  have hactive := hw.active_le
  have hlt := hw.screen_lt
  have hrows := hw.activeRows
  unfold returns rollTranscript rolled
  simp only [wp_bind, wp_get, wp_modify, wp_ite, wp_pure]
  by_cases hroom : s.mActiveRows < s.mTotalRows
  · rw [if_pos hroom, show min 1 ((s.mTotalRows : Int) - s.mActiveRows) = 1 by omega]
    have h1 : ((s.mActiveRows : Int) + 1).toNat = s.mActiveRows + 1 := by omega
    have h2 : ((s.mActiveTranscriptRows : Int) + 1).toNat = s.mActiveTranscriptRows + 1 := by
      omega
    simp only [h1, h2]
    refine ⟨fun _ => ?_, fun hneg => absurd (Nat.succ_pos _) hneg⟩
    rw [show (s.mHead : Int) + (1 - 1) = (s.mHead : Int) by omega, ← Int.natCast_emod,
      Int.toNat_natCast]
  · rw [if_neg hroom, show min 1 ((s.mTotalRows : Int) - s.mActiveRows) = 0 by omega]
    simp only [Int.add_zero, Int.toNat_natCast]
    refine ⟨fun _ => ?_, fun hneg => absurd (by omega) hneg⟩
    rw [show (s.mHead : Int) + (1 - 0) = ((s.mHead + 1 : Nat) : Int) by omega,
      ← Int.natCast_emod, Int.toNat_natCast]

theorem WellFormed.rolled {s : TranscriptScreen} (hw : WellFormed s) :
    WellFormed s.rolled ∧ 0 < s.rolled.mActiveTranscriptRows := by
  have hactive := hw.active_le
  have hlt := hw.screen_lt
  have hrows := hw.activeRows
  unfold TranscriptScreen.rolled
  by_cases hroom : s.mActiveRows < s.mTotalRows
  · rw [if_pos hroom]
    have hhead := hw.head_filling (by omega)
    have hzero : s.mHead % (s.mActiveTranscriptRows + 1) = 0 := by
      rw [hhead, Nat.zero_mod]
    simp only [hzero]
    refine ⟨{ hw with
      active_le := ?_, activeRows := ?_, head_filling := fun _ => rfl,
      head_lt := fun h => h }, Nat.succ_pos _⟩
    · show s.mActiveTranscriptRows + 1 ≤ s.mTotalRows - s.mScreenRows
      omega
    · show s.mActiveRows + 1 = s.mScreenRows + (s.mActiveTranscriptRows + 1)
      omega
  · rw [if_neg hroom]
    have hpos : 0 < s.mActiveTranscriptRows := by omega
    refine ⟨{ hw with
      active_le := hactive, activeRows := hrows, head_filling := ?_,
      head_lt := fun _ => Nat.mod_lt _ hpos }, hpos⟩
    intro hfill
    exfalso
    have : s.mActiveTranscriptRows < s.mTotalRows - s.mScreenRows := hfill
    omega

/-- Where the rows of the history lie before and after `rollTranscript`. -/
theorem historyIndex_rolled {s : TranscriptScreen} (hw : WellFormed s) {i : Nat}
    (hi : i + 1 < s.rolled.mActiveTranscriptRows) :
    s.rolled.historyIndex i =
      s.historyIndex (if s.mActiveRows < s.mTotalRows then i else i + 1) := by
  have hactive := hw.active_le
  have hlt := hw.screen_lt
  have hrows := hw.activeRows
  unfold TranscriptScreen.rolled at hi ⊢
  by_cases hroom : s.mActiveRows < s.mTotalRows
  · simp only [if_pos hroom] at hi ⊢
    have hhead := hw.head_filling (by omega)
    unfold historyIndex
    simp only [hhead, Nat.zero_mod, Nat.zero_add]
    rw [Nat.mod_eq_of_lt (by omega), Nat.mod_eq_of_lt (by omega)]
  · simp only [if_neg hroom] at hi ⊢
    unfold historyIndex
    simp only [Nat.mod_add_mod]
    congr 2
    omega

theorem SameLayout.refl (s : TranscriptScreen) : SameLayout s s := ⟨_, _, rfl⟩

theorem SameLayout.trans {s t u : TranscriptScreen} (h : SameLayout s t)
    (h' : SameLayout t u) : SameLayout s u := by
  obtain ⟨d, w, rfl⟩ := h
  obtain ⟨d', w', rfl⟩ := h'
  exact ⟨d', w', rfl⟩

theorem SameLayout.locates {s t : TranscriptScreen} (h : SameLayout s t) {row : Int}
    {r : Nat} (hr : Locates s row r) : Locates t row r := by
  obtain ⟨d, w, rfl⟩ := h
  exact hr

theorem SameLayout.mColumns {s t : TranscriptScreen} (h : SameLayout s t) :
    t.mColumns = s.mColumns := by
  obtain ⟨d, w, rfl⟩ := h
  rfl

theorem SameLayout.mTotalRows {s t : TranscriptScreen} (h : SameLayout s t) :
    t.mTotalRows = s.mTotalRows := by
  obtain ⟨d, w, rfl⟩ := h
  rfl

theorem SameLayout.mScreenRows {s t : TranscriptScreen} (h : SameLayout s t) :
    t.mScreenRows = s.mScreenRows := by
  obtain ⟨d, w, rfl⟩ := h
  rfl

theorem SameLayout.mActiveTranscriptRows {s t : TranscriptScreen} (h : SameLayout s t) :
    t.mActiveTranscriptRows = s.mActiveTranscriptRows := by
  obtain ⟨d, w, rfl⟩ := h
  rfl

theorem SameLayout.historyIndex {s t : TranscriptScreen} (h : SameLayout s t) (i : Nat) :
    t.historyIndex i = s.historyIndex i := by
  obtain ⟨d, w, rfl⟩ := h
  rfl

theorem Reflagged.wellFormed {s t : TranscriptScreen} {g : Nat → Option Bool}
    (h : Reflagged s t g) (hw : WellFormed s) : WellFormed t := by
  obtain ⟨w, rfl, hlen, _⟩ := h
  exact { hw with flags_length := hlen.trans hw.flags_length }

theorem Reflagged.cellAt {s t : TranscriptScreen} {g : Nat → Option Bool}
    (h : Reflagged s t g) (r x : Nat) : t.cellAt r x = s.cellAt r x := by
  obtain ⟨w, rfl, _, _⟩ := h
  rfl

theorem Reflagged.flag {s t : TranscriptScreen} {g : Nat → Option Bool}
    (h : Reflagged s t g) (r : Nat) : t.mLineWrap[r]? = g r := by
  obtain ⟨w, rfl, _, hg⟩ := h
  exact hg r

theorem Repainted.flag {s t : TranscriptScreen} {f : Nat → Nat → Option JChar}
    (h : Repainted s t f) (r : Nat) : t.mLineWrap[r]? = s.mLineWrap[r]? := by
  obtain ⟨d, rfl, _, _⟩ := h
  rfl

/-- `mLineWrap[i] = b` -/
theorem setFlag_returns {s : TranscriptScreen} {i : Nat} (b : Bool)
    (hi : i < s.mLineWrap.length) :
    arraySet (Exn.arrayIndexOutOfBounds .mLineWrap) s.mLineWrap (i : Int) b =
        .ok (s.mLineWrap.set i b) ∧
      Reflagged s { s with mLineWrap := s.mLineWrap.set i b } fun r =>
        if i = r then some b else s.mLineWrap[r]? := by
  refine ⟨arraySet_of_lt b hi, _, rfl, List.length_set, fun r => ?_⟩
  rw [List.getElem?_set, if_pos hi]

/-- Where `scroll` takes the contents of row `r` from; `dest` is the row of the
transcript that receives row `top`. -/
def scrollSource (top bottom dest r : Nat) : Nat :=
  if r = dest then top else if top ≤ r ∧ r + 1 < bottom then r + 1 else r

/-- The three moves of `scrollLines` in the order they are made, outermost last. -/
theorem moves_eq_scrollSource {α : Type} {top bottom dest : Nat} (hmargins : top < bottom)
    (hdest : bottom ≤ dest) (f : Nat → α) (blank : α) (r : Nat) :
    (if r + 1 = bottom then blank
      else if top ≤ r ∧ r < top + (bottom - top - 1) then
        if dest ≤ top + 1 + (r - top) ∧ top + 1 + (r - top) < dest + 1 then
          f (top + (top + 1 + (r - top) - dest))
        else f (top + 1 + (r - top))
      else if dest ≤ r ∧ r < dest + 1 then f (top + (r - dest)) else f r) =
      if r + 1 = bottom then blank else f (scrollSource top bottom dest r) := by
  unfold scrollSource
  split_ifs <;> first | omega | rfl | (congr 1; omega)

theorem scrollLines_returns {s : TranscriptScreen} (hw : WellFormed s)
    {top bottom dest : Nat} (foreColor backColor : Nat) (hmargins : top < bottom)
    (hbottom : bottom ≤ s.mScreenRows) (hdest : Locates s (-1) dest) :
    returns (scrollLines top bottom foreColor backColor)
      (fun _ t => SameLayout s t ∧ WellFormed t ∧ ∀ r, t.rowAt r =
        if r + 1 = bottom then
          ⟨List.replicate s.mColumns (encode 32 foreColor backColor), false⟩
        else s.rowAt (scrollSource top bottom dest r)) s := by
  have hlt := hw.screen_lt
  have htop : Locates s top top := locates_screen (by omega)
  have hlast : Locates s (bottom - 1) (bottom - 1 : Nat) := Or.inl ⟨by omega, by omega⟩
  have hdestlt := hdest.lt hw
  have hnext : iadd ((top * s.mColumns : Nat) : Int) s.mColumns =
      (((top + 1) * s.mColumns : Nat) : Int) := by
    have := hw.offset_le (r := top) (n := 1) (by omega)
    rw [iadd_natCast (n := s.mData.length) (by omega) hw.data_length_isInt, Nat.succ_mul]
  have hlines : (bottom : Int) - top - 1 = ((bottom - top - 1 : Nat) : Int) := by omega
  have hchars : imul ((bottom - top - 1 : Nat) : Int) s.mColumns =
      (((bottom - top - 1) * s.mColumns : Nat) : Int) := by
    have := hw.offset_le (r := 0) (n := bottom - top - 1) (by omega)
    exact imul_natCast (n := s.mData.length) (by omega) hw.data_length_isInt
  have hrow := copyData_rows hw.toAllocated (a := top) (b := dest) (n := 1) (by omega)
    (by omega)
  rw [Nat.one_mul] at hrow
  unfold returns scrollLines
  simp only [wp_bind, wp_get, hlines]
  rw [wp_of_ok (getOffset_of_row hw.toAllocated (htop.externalToInternalRow hw) (by omega)),
    wp_of_ok (getOffset_of_row hw.toAllocated (hdest.externalToInternalRow hw) hdestlt),
    hnext, hchars]
  clear hnext hchars
  -- row `top` goes to the transcript
  refine wp_of_returns hrow ?_
  intro _ t₁ h₁
  have hw₁ := h₁.wellFormed hw
  have hl₁ := h₁.sameLayout
  rw [wp_of_ok ((hl₁.locates htop).externalToInternalRow hw₁),
    wp_of_ok ((hl₁.locates hdest).externalToInternalRow hw₁)]
  have hflags₁ := hw₁.flags_length
  have htotal₁ : t₁.mTotalRows = s.mTotalRows := hl₁.mTotalRows
  refine wp_of_returns (copyLineWrap_returns (n := 1) (by omega) (by omega)) ?_
  intro _ t₂ h₂
  have hw₂ := h₂.wellFormed hw₁
  have hl₂ := hl₁.trans h₂.sameLayout
  -- the rows below it move up
  have hcols₂ : t₂.mColumns = s.mColumns := hl₂.mColumns
  have htotal₂ : t₂.mTotalRows = s.mTotalRows := hl₂.mTotalRows
  rw [← hcols₂]
  refine wp_of_returns (copyData_rows hw₂.toAllocated (by omega) (by omega)) ?_
  intro _ t₃ h₃
  have hw₃ := h₃.wellFormed hw₂
  have hl₃ := hl₂.trans h₃.sameLayout
  have hflags₃ := hw₃.flags_length
  have htotal₃ : t₃.mTotalRows = s.mTotalRows := hl₃.mTotalRows
  rw [show (top : Int) + 1 = ((top + 1 : Nat) : Int) by omega]
  refine wp_of_returns (copyLineWrap_returns (by omega) (by omega)) ?_
  intro _ t₄ h₄
  have hw₄ := h₄.wellFormed hw₃
  have hl₄ := hl₃.trans h₄.sameLayout
  -- row `bottom - 1` is erased
  have hcols₄ : t₄.mColumns = s.mColumns := hl₄.mColumns
  have hrows₄ : t₄.mScreenRows = s.mScreenRows := hl₄.mScreenRows
  rw [show (bottom : Int) - 1 = ((bottom - 1 : Nat) : Int) by omega, hcols₂, ← hcols₄]
  refine wp_of_returns (blockSet_returns hw₄.toAllocated 0 (bottom - 1) t₄.mColumns 1 32 foreColor
    backColor (by omega) (by omega)) ?_
  intro _ t₅ h₅
  have hw₅ := h₅.wellFormed hw₄
  have hl₅ := hl₄.trans h₅.sameLayout
  have hlast₅ := hl₅.locates hlast
  rw [show (bottom : Int) - 1 = ((bottom - 1 : Nat) : Int) by omega] at hlast₅
  rw [wp_of_ok (hlast₅.externalToInternalRow hw₅)]
  obtain ⟨hset, h₆⟩ := setFlag_returns (s := t₅) (i := bottom - 1) false (by
    rw [hw₅.flags_length]
    exact hlast₅.lt hw₅)
  simp only [hset, wp_checked_ok, wp_set]
  have hl₆ := hl₅.trans h₆.sameLayout
  refine ⟨hl₆, h₆.wellFormed hw₅, fun r => ?_⟩
  have hdestge := hdest.ge_of_neg hw (by omega)
  have hcols₁ : t₁.mColumns = s.mColumns := hl₁.mColumns
  have hcell : ∀ x < s.mColumns, TranscriptScreen.cellAt
      { t₅ with mLineWrap := t₅.mLineWrap.set (bottom - 1) false } r x =
      if r + 1 = bottom then some (encode 32 foreColor backColor)
      else s.cellAt (scrollSource top bottom dest r) x := by
    intro x hx
    rw [h₆.cellAt, h₅.cellAt (by omega), h₄.cellAt, h₃.cellAt (by omega), h₂.cellAt,
      h₂.cellAt, h₁.cellAt hx, h₁.cellAt hx,
      ← moves_eq_scrollSource hmargins (by omega) (s.cellAt · x)]
    have hmem : ((bottom - 1 ≤ r ∧ r < bottom - 1 + 1) ∧ 0 ≤ x ∧ x < 0 + t₄.mColumns) ↔
        r + 1 = bottom := by omega
    simp only [hmem]
  have hflag : (t₅.mLineWrap.set (bottom - 1) false)[r]? =
      if r + 1 = bottom then some false
      else s.mLineWrap[scrollSource top bottom dest r]? := by
    rw [h₆.flag, h₅.flag, h₄.flag, h₃.flag, h₃.flag, h₂.flag, h₂.flag, h₁.flag, h₁.flag,
      ← moves_eq_scrollSource hmargins (by omega) (s.mLineWrap[·]?)]
    have hmem : bottom - 1 = r ↔ r + 1 = bottom := by omega
    simp only [hmem, h₁.flag]
  by_cases hr : r + 1 = bottom
  · rw [if_pos hr]
    rw [if_pos hr] at hflag
    refine Row.ext_getElem? ?_ fun x => ?_
    · show ((t₅.mLineWrap.set (bottom - 1) false)[r]?).getD false = false
      rw [hflag]
      rfl
    · have hcols₅ : t₅.mColumns = s.mColumns := hl₅.mColumns
      rw [getElem?_cells_rowAt, List.getElem?_replicate]
      by_cases hx : x < s.mColumns
      · rw [if_pos (show x < t₅.mColumns by omega), if_pos (by omega), hcell x hx,
          if_pos hr]
      · rw [if_neg (show ¬ x < t₅.mColumns by omega), if_neg (by omega)]
  · rw [if_neg hr]
    rw [if_neg hr] at hflag
    refine rowAt_congr hl₆.mColumns (fun x hx => ?_) hflag
    have := hcell x hx
    rw [if_neg hr] at this
    unfold cellAt at this
    rw [hl₆.mColumns] at this
    exact this

theorem rolled_layout (s : TranscriptScreen) :
    s.rolled.mColumns = s.mColumns ∧ s.rolled.mTotalRows = s.mTotalRows ∧
      s.rolled.mScreenRows = s.mScreenRows ∧ ∀ r, s.rolled.rowAt r = s.rowAt r := by
  unfold rolled
  split
  · exact ⟨rfl, rfl, rfl, fun _ => rfl⟩
  · exact ⟨rfl, rfl, rfl, fun _ => rfl⟩

theorem mActiveTranscriptRows_rolled {s : TranscriptScreen} (hw : WellFormed s) :
    s.rolled.mActiveTranscriptRows =
      if s.mActiveTranscriptRows < s.mTotalRows - s.mScreenRows then
        s.mActiveTranscriptRows + 1
      else s.mActiveTranscriptRows := by
  have hrows := hw.activeRows
  have hlt := hw.screen_lt
  unfold rolled
  by_cases hroom : s.mActiveRows < s.mTotalRows
  · rw [if_pos hroom, if_pos (by omega)]
  · rw [if_neg hroom, if_neg (by omega)]

/-- The rows that stay in the history, oldest first. -/
theorem history_rolled {s : TranscriptScreen} (hw : WellFormed s) :
    (List.range (s.rolled.mActiveTranscriptRows - 1)).map
        (fun i => s.rowAt (s.rolled.historyIndex i)) =
      if s.mActiveTranscriptRows < s.mTotalRows - s.mScreenRows then s.toBuffer.history
      else s.toBuffer.history.drop 1 := by
  have hrows := hw.activeRows
  have hactive := hw.active_le
  have hlt := hw.screen_lt
  have hcount := mActiveTranscriptRows_rolled hw
  by_cases hroom : s.mActiveTranscriptRows < s.mTotalRows - s.mScreenRows
  · rw [if_pos hroom] at hcount ⊢
    rw [hcount, Nat.add_sub_cancel]
    apply List.map_congr_left
    intro i hi
    rw [List.mem_range] at hi
    rw [historyIndex_rolled hw (by omega), if_pos (by omega)]
  · rw [if_neg hroom] at hcount ⊢
    apply List.ext_getElem
    · simp only [toBuffer, List.length_map, List.length_range, List.length_drop, hcount]
    · intro i hi _
      rw [List.length_map, List.length_range] at hi
      simp only [toBuffer, List.getElem_map, List.getElem_range, List.getElem_drop]
      rw [historyIndex_rolled hw (by omega), if_neg (by omega), Nat.add_comm]

theorem scroll_toBuffer {s : TranscriptScreen} (hw : WellFormed s) {top bottom : Nat}
    (foreColor backColor : Nat) (hmargins : top < bottom) (hbottom : bottom ≤ s.mScreenRows) :
    returns (scroll top bottom foreColor backColor)
      (fun _ t => WellFormed t ∧
        t.toBuffer = s.toBuffer.scroll top bottom (encode 32 foreColor backColor)) s := by
  have hlt := hw.screen_lt
  obtain ⟨hw₁, hactive⟩ := hw.rolled
  obtain ⟨hcols₁, htotal₁, hrows₁, hrowAt₁⟩ := s.rolled_layout
  have hdest : Locates s.rolled (-1)
      (s.rolled.historyIndex (s.rolled.mActiveTranscriptRows - 1)) :=
    Or.inr ⟨_, by omega, by omega, rfl⟩
  unfold returns scroll
  simp only [wp_bind, wp_get, wp_throwIf]
  refine ⟨by omega, fun _ => ⟨by omega, fun _ => ⟨by omega, fun _ => ?_⟩⟩⟩
  refine wp_of_returns (consistencyCheck_returns hw) ?_
  rintro _ t₀ ht₀
  rw [ht₀]
  refine wp_of_returns (rollTranscript_returns hw) ?_
  rintro _ t₁ ht₁
  rw [ht₁]
  refine wp_of_returns (consistencyCheck_returns hw₁) ?_
  rintro _ t₂ ht₂
  rw [ht₂]
  refine wp_of_returns (scrollLines_returns hw₁ foreColor backColor hmargins (by omega)
    hdest) ?_
  rintro _ t ⟨hl, hwt, hrow⟩
  refine ⟨hwt, ?_⟩
  have hge := hdest.ge_of_neg hw₁ (by omega)
  have htop : s.toBuffer.screen[top]? = some (s.rowAt top) := by
    simp only [toBuffer, List.getElem?_map, List.getElem?_range (show top < s.mScreenRows by
      omega), Option.map_some]
  have hlen : s.toBuffer.history.length = s.mActiveTranscriptRows := by
    simp only [toBuffer, List.length_map, List.length_range]
  have hhistory : t.toBuffer.history =
      (s.toBuffer.scroll top bottom (encode 32 foreColor backColor)).history := by
    rw [ScrollBuffer.history_scroll htop (show 0 < s.mTotalRows - s.mScreenRows by omega)
      (hlen.trans_le hw.active_le), hlen]
    show _ = (if s.mActiveTranscriptRows < s.mTotalRows - s.mScreenRows then _ else _) ++ _
    rw [← history_rolled hw]
    obtain ⟨m, hm⟩ : ∃ m, s.rolled.mActiveTranscriptRows = m + 1 :=
      ⟨s.rolled.mActiveTranscriptRows - 1, by omega⟩
    simp only [toBuffer, hl.mActiveTranscriptRows, hl.historyIndex]
    rw [hm, Nat.add_sub_cancel] at hrow hge
    rw [hm, Nat.add_sub_cancel, List.range_succ, List.map_append, List.map_singleton]
    congr 1
    · apply List.map_congr_left
      intro i hi
      rw [List.mem_range] at hi
      have hne : s.rolled.historyIndex i ≠ s.rolled.historyIndex m := fun heq =>
        absurd (historyIndex_inj (by omega) (by omega) heq) (by omega)
      have hbehind := (hw₁.historyIndex_lt (i := i) (by omega)).1
      rw [hrow, if_neg (by omega), hrowAt₁, scrollSource, if_neg hne, if_neg (by omega)]
    · rw [hrow, if_neg (by omega), hrowAt₁, scrollSource, if_pos rfl]
  have hscreen : t.toBuffer.screen =
      (s.toBuffer.scroll top bottom (encode 32 foreColor backColor)).screen := by
    apply List.ext_getElem?
    intro y
    rw [ScrollBuffer.getElem?_screen_scroll hmargins
      (by simp only [toBuffer, List.length_map, List.length_range]; omega)]
    simp only [toBuffer, hl.mScreenRows, hrows₁, List.getElem?_map]
    by_cases hy : y < s.mScreenRows
    · rw [List.getElem?_range hy, Option.map_some, hrow, hrowAt₁, hcols₁, scrollSource,
        if_neg (show y ≠ s.rolled.historyIndex (s.rolled.mActiveTranscriptRows - 1) by omega)]
      by_cases hlast : y + 1 = bottom
      · rw [if_pos hlast, if_pos hlast]
      · rw [if_neg hlast, if_neg hlast]
        by_cases hmid : top ≤ y ∧ y + 1 < bottom
        · rw [if_pos hmid, if_pos hmid, List.getElem?_range (by omega), Option.map_some]
        · rw [if_neg hmid, if_neg hmid, Option.map_some]
    · have hnone : ∀ z, s.mScreenRows ≤ z → (List.range s.mScreenRows)[z]? = none := by
        intro z hz
        exact List.getElem?_eq_none (by rwa [List.length_range])
      rw [if_neg (by omega), if_neg (by omega), hnone y (by omega)]
      rfl
  refine ScrollBuffer.ext (hl.mColumns.trans hcols₁) ?_ hhistory hscreen
  show t.mTotalRows - t.mScreenRows = s.mTotalRows - s.mScreenRows
  rw [hl.mTotalRows, hl.mScreenRows, htotal₁, hrows₁]

/-! ## §5  Initialisation -/

/-- A screen whose cells are all `v` and whose flags are off, with no history. -/
theorem toBuffer_blank {t : TranscriptScreen} {columns rows : Nat} {v : JChar}
    (hcols : t.mColumns = columns) (hrows : t.mScreenRows = rows)
    (hactive : t.mActiveTranscriptRows = 0)
    (hcell : ∀ r x, r < rows → x < columns → t.cellAt r x = some v)
    (hwrap : ∀ r, (t.rowAt r).wrap = false) :
    t.toBuffer = ScrollBuffer.blank columns (t.mTotalRows - rows) rows v := by
  refine ScrollBuffer.ext hcols ?_ ?_ ?_
  · simp only [toBuffer, ScrollBuffer.blank, hrows]
  · simp only [toBuffer, ScrollBuffer.blank, hactive, List.range_zero, List.map_nil]
  · apply List.ext_getElem?
    intro y
    simp only [toBuffer, ScrollBuffer.blank, List.getElem?_map, List.getElem?_replicate, hrows]
    by_cases hy : y < rows
    · rw [List.getElem?_range hy, if_pos hy, Option.map_some]
      congr 1
      refine Row.ext_getElem? (hwrap y) fun x => ?_
      rw [getElem?_cells_rowAt, hcols, List.getElem?_replicate]
      by_cases hx : x < columns
      · rw [if_pos hx, if_pos hx, hcell y x hy hx]
      · rw [if_neg hx, if_neg hx]
    · rw [if_neg hy, List.getElem?_eq_none (by rw [List.length_range]; omega)]
      rfl

theorem init_toBuffer {columns totalRows screenRows : Nat}
    (hfits : Fits columns totalRows screenRows) (foreColor backColor : Nat)
    (s : TranscriptScreen) :
    returns (init columns totalRows screenRows foreColor backColor)
      (fun _ t => WellFormed t ∧ t.mTotalRows = totalRows ∧ t.toBuffer =
        ScrollBuffer.blank columns (totalRows - screenRows) screenRows
          (encode 32 foreColor backColor)) s := by
  have hsize := hfits.size_isInt
  have hmul : imul (columns : Int) totalRows = ((columns * totalRows : Nat) : Int) :=
    imul_natCast (n := columns * totalRows) (Nat.le_refl _) (by push_cast; exact hsize)
  unfold returns init
  simp only [wp_bind, wp_modify, wp_throwIf, hmul, Int.toNat_natCast]
  refine ⟨by omega, fun _ => ?_⟩
  clear hmul
  generalize hs₀ : TranscriptScreen.mk columns totalRows 0 0 screenRows screenRows
    (List.replicate (columns * totalRows) 0) s.mRowBuffer s.mLineWrap = s₀
  have hcols₀ : s₀.mColumns = columns := by rw [← hs₀]
  have htotal₀ : s₀.mTotalRows = totalRows := by rw [← hs₀]
  have hrows₀ : s₀.mScreenRows = screenRows := by rw [← hs₀]
  have hactive₀ : s₀.mActiveTranscriptRows = 0 := by rw [← hs₀]
  have hhead₀ : s₀.mHead = 0 := by rw [← hs₀]
  have hactiveRows₀ : s₀.mActiveRows = screenRows := by rw [← hs₀]
  have hlen₀ : s₀.mData.length = totalRows * columns := by
    rw [← hs₀, List.length_replicate, Nat.mul_comm]
  clear hs₀
  have ha₀ : Allocated s₀ :=
    { toFits := by rw [hcols₀, htotal₀, hrows₀]; exact hfits
      data_length := by rw [hcols₀, htotal₀]; exact hlen₀ }
  refine wp_of_returns (blockSet_returns ha₀ 0 0 columns screenRows 32 foreColor backColor
    (by omega) (by omega)) ?_
  rintro _ t₁ ⟨d, rfl, hlen, hd⟩
  generalize ht : ({ s₀ with
    mData := d
    mRowBuffer := List.replicate columns 0
    mLineWrap := List.replicate totalRows false } : TranscriptScreen) = t
  have hcols : t.mColumns = columns := by rw [← ht]; exact hcols₀
  have htotal : t.mTotalRows = totalRows := by rw [← ht]; exact htotal₀
  have hrows : t.mScreenRows = screenRows := by rw [← ht]; exact hrows₀
  have hactive : t.mActiveTranscriptRows = 0 := by rw [← ht]; exact hactive₀
  have hcell : ∀ r x, r < screenRows → x < columns →
      t.cellAt r x = some (encode 32 foreColor backColor) := by
    intro r x hr hx
    rw [← ht]
    exact (hd r x (by omega)).trans (if_pos (by omega))
  have hwrap : ∀ r, (t.rowAt r).wrap = false := by
    intro r
    rw [← ht]
    show (List.replicate totalRows false)[r]?.getD false = false
    rw [List.getElem?_replicate]
    split <;> rfl
  have hhead : t.mHead = 0 := by rw [← ht]; exact hhead₀
  have hactiveRows : t.mActiveRows = screenRows := by rw [← ht]; exact hactiveRows₀
  have hlen' : t.mData.length = totalRows * columns := by rw [← ht]; exact hlen.trans hlen₀
  have hflags : t.mLineWrap.length = totalRows := by rw [← ht]; exact List.length_replicate
  have hbuffer : t.mRowBuffer.length = columns := by rw [← ht]; exact List.length_replicate
  clear ht
  have hwt : WellFormed t :=
    { toFits := by rw [hcols, htotal, hrows]; exact hfits
      data_length := by rw [hcols, htotal]; exact hlen'
      active_le := by rw [hactive]; exact Nat.zero_le _
      activeRows := by rw [hactiveRows, hrows, hactive, Nat.add_zero]
      head_filling := fun _ => hhead
      head_lt := fun h => absurd h (by rw [hactive]; exact Nat.lt_irrefl 0)
      flags_length := by rw [hflags, htotal]
      buffer_length := by rw [hbuffer, hcols] }
  refine returns_mono (consistencyCheck_returns hwt) ?_
  intro _ u hu
  rw [hu, ← htotal]
  exact ⟨hwt, rfl, toBuffer_blank hcols hrows hactive hcell hwrap⟩

theorem create_toBuffer {columns totalRows screenRows : Nat}
    (hfits : Fits columns totalRows screenRows) (foreColor backColor : Nat) :
    ∃ s, create columns totalRows screenRows foreColor backColor = .ok s ∧ WellFormed s ∧
      s.toBuffer = ScrollBuffer.blank columns (totalRows - screenRows) screenRows
        (encode 32 foreColor backColor) := by
  obtain ⟨_, s, hinit, hw, _, hbuf⟩ :=
    returns_iff.mp (init_toBuffer hfits foreColor backColor unallocated)
  exact ⟨s, construct_of_ok hinit, hw, hbuf⟩

end Kbox.Session.TranscriptScreen
