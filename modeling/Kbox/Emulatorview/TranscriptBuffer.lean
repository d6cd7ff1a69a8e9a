import Kbox.Emulatorview.RowFrames
import Kbox.Emulatorview.StyleRows
import Kbox.Framework.ScrollBuffer

/-!
# The transcript as a scrollback buffer

`toBuffer` reads the rows off the three arrays: characters and styles by
column, and the line-wrap flag.  `Plain` is the invariant as long as only
characters of one column in one `char` are written: every row with text is in
the basic representation.
-/

namespace Kbox.Emulatorview

open Kbox.Framework

/-- A character and its style. -/
abbrev Cell : Type := JChar × Style

/-- A style that fits into three bytes; every encoded style does. -/
def Narrow (style : Style) : Prop := TextStyle.narrow style = style

instance (style : Style) : Decidable (Narrow style) := inferInstanceAs (Decidable (_ = _))

namespace UnicodeTranscript

/-! ## §1  Abstraction and invariant -/

/-- A row without text is blank. -/
def StoredRow.charAt (r : StoredRow) (x : Nat) : JChar :=
  match r.line with
  | some (.basic text) => text.getD x 32
  | _ => 32

/-- A row without styles gets style 0 along with its text. -/
def StoredRow.styleAt (r : StoredRow) (x : Nat) : Style :=
  match r.color with
  | some color => (color.get x).toOption.getD 0
  | none => 0

def StoredRow.toRow (columns : Nat) (r : StoredRow) : Row Cell where
  cells := (List.range columns).map fun x => (r.charAt x, r.styleAt x)
  wrap := r.wrap

/-- No text but basic text, which has styles. -/
structure StoredRow.Plain (columns : Nat) (r : StoredRow) : Prop where
  text : ∀ line, r.line = some line → ∃ text, line = .basic text ∧ text.length = columns
  style : ∀ color, r.color = some color → color.Holds Narrow columns
  color : r.line ≠ none → r.color ≠ none

structure Plain (s : UnicodeTranscript) : Prop extends Ring s where
  room : s.mScreenRows < s.mTotalRows
  columns_int : (s.mColumns : Int) ≤ intMax
  rows_int : (s.mScreenRows : Int) ≤ intMax
  rows : ∀ k < s.mTotalRows, (s.screenRow k).Plain s.mColumns

/-- The `i`-th oldest row of the transcript. -/
def historyRow (s : UnicodeTranscript) (i : Nat) : StoredRow :=
  s.screenRow (s.mTotalRows - s.mActiveTranscriptRows + i)

/-- The character of one cell changes, not its style. -/
def setGlyph (b : ScrollBuffer Cell) (x : Nat) (y : Int)
    (c : JChar) : ScrollBuffer Cell :=
  b.modifyRow y fun r => { r with cells := r.cells.modify x fun cell => (c, cell.2) }

def toBuffer (s : UnicodeTranscript) : ScrollBuffer Cell where
  columns := s.mColumns
  limit := s.mTotalRows - s.mScreenRows
  history := (List.range s.mActiveTranscriptRows).map fun i => (s.historyRow i).toRow s.mColumns
  screen := (List.range s.mScreenRows).map fun y => (s.screenRow y).toRow s.mColumns

variable {s t : UnicodeTranscript}

theorem length_screen (s : UnicodeTranscript) : s.toBuffer.screen.length = s.mScreenRows := by
  simp only [toBuffer, List.length_map, List.length_range]

theorem length_history (s : UnicodeTranscript) :
    s.toBuffer.history.length = s.mActiveTranscriptRows := by
  simp only [toBuffer, List.length_map, List.length_range]

theorem getElem?_screen {y : Nat} (hy : y < s.mScreenRows) :
    s.toBuffer.screen[y]? = some ((s.screenRow y).toRow s.mColumns) := by
  simp only [toBuffer, List.getElem?_map, List.getElem?_range hy, Option.map_some]

theorem getElem?_history {i : Nat} (hi : i < s.mActiveTranscriptRows) :
    s.toBuffer.history[i]? = some ((s.historyRow i).toRow s.mColumns) := by
  simp only [toBuffer, List.getElem?_map, List.getElem?_range hi, Option.map_some]

theorem Plain.active_le (hs : Plain s) :
    s.mActiveTranscriptRows ≤ s.mTotalRows - s.mScreenRows := by
  have hle := hs.rows_le
  unfold getActiveRows at hle
  omega

/-! ## §2  Scrolling -/

theorem toRow_blankRow (s : UnicodeTranscript) (style : Style) :
    (s.blankRow style).toRow s.mColumns = ⟨List.replicate s.mColumns (32, style), false⟩ := by
  have hcells : (List.range s.mColumns).map (fun x =>
      ((s.blankRow style).charAt x, (s.blankRow style).styleAt x)) =
        List.replicate s.mColumns ((32, style) : Cell) := by
    rw [List.eq_replicate_iff]
    refine ⟨by rw [List.length_map, List.length_range], fun c hc => ?_⟩
    obtain ⟨x, _, rfl⟩ := List.mem_map.mp hc
    rfl
  unfold StoredRow.toRow
  rw [hcells]
  rfl

theorem plain_blankRow (s : UnicodeTranscript) {style : Style} (hstyle : Narrow style) :
    (s.blankRow style).Plain s.mColumns where
  text _ h := by cases h
  style color h := by
    cases h
    exact StyleRow.holds_create hstyle
  color h := absurd rfl h

theorem Scrolled.sizes {top bottom : Nat} {style : Style} (h : Scrolled top bottom style s t) :
    t.mColumns = s.mColumns ∧ t.mScreenRows = s.mScreenRows ∧ t.mTotalRows = s.mTotalRows ∧
      t.mActiveTranscriptRows = s.advanced.mActiveTranscriptRows := by
  obtain ⟨_, _, _, rfl⟩ := h.fields
  exact ⟨rfl, rfl, rfl, rfl⟩

theorem Scrolled.plain {top bottom : Nat} {style : Style} (h : Scrolled top bottom style s t)
    (hs : Plain s) (hbottom : bottom ≤ s.mScreenRows)
    (hstyle : Narrow style) : Plain t := by
  obtain ⟨hcolumns, hscreen, htotal, _⟩ := h.sizes
  have hroom := hs.room
  refine { h.ring with
    room := by rw [hscreen, htotal]; exact hroom
    columns_int := by rw [hcolumns]; exact hs.columns_int
    rows_int := by rw [hscreen]; exact hs.rows_int
    rows := fun k hk => ?_ }
  rw [htotal] at hk
  rw [h.rows k hk, hcolumns]
  cases hsource : s.scrollSource top bottom k with
  | none => exact plain_blankRow s hstyle
  | some j =>
      refine hs.rows j ?_
      unfold scrollSource at hsource
      split_ifs at hsource <;> simp only [Option.some.injEq] at hsource <;> omega

/-- The rows of the transcript move up by one, and the row that scrolled out is the last. -/
theorem Scrolled.transcriptRow {top bottom : Nat} {style : Style}
    (h : Scrolled top bottom style s t) (hmargins : top < bottom) (hbottom : bottom ≤ s.mScreenRows)
    (hroom : s.mScreenRows < s.mTotalRows) {k : Nat} (hlo : s.mScreenRows ≤ k)
    (hk : k < s.mTotalRows) :
    t.screenRow k = if k + 1 < s.mTotalRows then s.screenRow (k + 1) else s.screenRow top := by
  rw [h.rows k hk]
  by_cases hlast : k + 1 < s.mTotalRows
  · rw [scrollSource_kept (by omega) hlast, if_neg (by omega), if_pos hlast]
    rfl
  · rw [scrollSource_last hmargins hbottom hroom (by omega), if_neg hlast]
    rfl

theorem Scrolled.history_eq {top bottom : Nat} {style : Style} (h : Scrolled top bottom style s t)
    (hs : Plain s) (hmargins : top < bottom) (hbottom : bottom ≤ s.mScreenRows) :
    t.toBuffer.history = (s.toBuffer.scroll top bottom (32, style)).history := by
  have hroom := hs.room
  have hactive := hs.active_le
  obtain ⟨hcolumns, hscreen, htotal, hrows⟩ := h.sizes
  have hlimit : s.toBuffer.limit = s.mTotalRows - s.mScreenRows := rfl
  rw [ScrollBuffer.history_scroll (getElem?_screen (show top < s.mScreenRows by omega))
    (by omega) (by rw [length_history]; omega), length_history, hlimit]
  apply List.ext_getElem?
  intro i
  unfold advanced at hrows
  by_cases hfull : s.mActiveTranscriptRows < s.mTotalRows - s.mScreenRows
  · have hgrown : t.mActiveTranscriptRows = s.mActiveTranscriptRows + 1 := by
      rw [hrows]
      exact if_pos (by omega)
    rw [if_pos hfull, List.getElem?_append, length_history]
    by_cases hi : i < s.mActiveTranscriptRows
    · rw [if_pos hi, getElem?_history hi, getElem?_history (by omega), hcolumns]
      unfold historyRow
      rw [htotal, hgrown, h.transcriptRow hmargins hbottom hroom (by omega) (by omega),
        if_pos (by omega), show s.mTotalRows - (s.mActiveTranscriptRows + 1) + i + 1 =
          s.mTotalRows - s.mActiveTranscriptRows + i by omega]
    · rw [if_neg hi]
      by_cases hlast : i = s.mActiveTranscriptRows
      · rw [hlast, Nat.sub_self, getElem?_history (by omega), hcolumns]
        unfold historyRow
        rw [htotal, hgrown, h.transcriptRow hmargins hbottom hroom (by omega) (by omega),
          if_neg (by omega)]
        rfl
      · rw [List.getElem?_eq_none (by rw [length_history]; omega),
          List.getElem?_eq_none (by rw [List.length_singleton]; omega)]
  · have hsame : t.mActiveTranscriptRows = s.mActiveTranscriptRows := by
      rw [hrows]
      exact if_neg (by omega)
    rw [if_neg hfull, List.getElem?_append, List.length_drop, length_history]
    by_cases hi : i < s.mActiveTranscriptRows - 1
    · rw [if_pos hi, List.getElem?_drop, getElem?_history (by omega), getElem?_history (by omega),
        hcolumns]
      unfold historyRow
      rw [htotal, hsame, h.transcriptRow hmargins hbottom hroom (by omega) (by omega),
        if_pos (by omega), show s.mTotalRows - s.mActiveTranscriptRows + i + 1 =
          s.mTotalRows - s.mActiveTranscriptRows + (1 + i) by omega]
    · rw [if_neg hi]
      by_cases hlast : i = s.mActiveTranscriptRows - 1
      · rw [hlast, Nat.sub_self, getElem?_history (by omega), hcolumns]
        unfold historyRow
        rw [htotal, hsame, h.transcriptRow hmargins hbottom hroom (by omega) (by omega),
          if_neg (by omega)]
        rfl
      · rw [List.getElem?_eq_none (by rw [length_history]; omega),
          List.getElem?_eq_none (by rw [List.length_singleton]; omega)]

theorem Scrolled.screen_eq {top bottom : Nat} {style : Style} (h : Scrolled top bottom style s t)
    (hroom : s.mScreenRows < s.mTotalRows) (hmargins : top < bottom)
    (hbottom : bottom ≤ s.mScreenRows) :
    t.toBuffer.screen = (s.toBuffer.scroll top bottom (32, style)).screen := by
  obtain ⟨hcolumns, hscreen, htotal, _⟩ := h.sizes
  have hbottom' : bottom ≤ s.toBuffer.screen.length := by
    rw [length_screen]
    exact hbottom
  apply List.ext_getElem?
  intro y
  by_cases hy : y < s.mScreenRows
  · rw [getElem?_screen (by omega), ScrollBuffer.getElem?_screen_scroll hmargins hbottom',
      h.rows y (by omega), hcolumns]
    by_cases hblank : y + 1 = bottom
    · rw [if_pos hblank, scrollSource_blank hmargins hblank]
      exact congrArg some (toRow_blankRow s style)
    · rw [if_neg hblank, scrollSource_kept hblank (by omega)]
      by_cases hmoved : top ≤ y ∧ y + 1 < bottom
      · rw [if_pos hmoved, if_neg (by omega), getElem?_screen (by omega)]
        rfl
      · rw [if_neg hmoved, if_pos (by omega), getElem?_screen hy]
        rfl
  · rw [List.getElem?_eq_none (by rw [length_screen]; omega), List.getElem?_eq_none]
    rw [ScrollBuffer.length_screen_scroll hmargins hbottom', length_screen]
    omega

theorem scroll_toBuffer (hs : Plain s) {top bottom : Nat} (hmargins : top < bottom)
    (hbottom : bottom ≤ s.mScreenRows) {style : Style} (hstyle : Narrow style) :
    returns (scroll top bottom style)
      (fun _ t => Plain t ∧ t.toBuffer = s.toBuffer.scroll top bottom (32, style)) s := by
  have hroom := hs.room
  refine wp_of_returns (scroll_returns hs.toRing hroom hmargins hbottom style) fun _ t ht => ?_
  obtain ⟨hcolumns, hscreen, htotal, _⟩ := ht.sizes
  refine ⟨ht.plain hs hbottom hstyle, ScrollBuffer.ext hcolumns ?_
    (ht.history_eq hs hmargins hbottom) (ht.screen_eq hroom hmargins hbottom)⟩
  show t.mTotalRows - t.mScreenRows = s.mTotalRows - s.mScreenRows
  rw [hscreen, htotal]

/-! ## §3  One row of the screen -/

/-- Row `y` of the screen is `row` now. -/
structure Rewrites (y : Nat) (row : StoredRow) (s t : UnicodeTranscript) : Prop where
  fields : ∃ lines colors flags, t = { s with mLines := lines, mColor := colors, mLineWrap := flags }
  ring : Ring t
  rewritten : t.screenRow y = row
  kept : ∀ k < s.mTotalRows, k ≠ y → t.screenRow k = s.screenRow k

theorem Rewrites.trans {u : UnicodeTranscript} {y : Nat} {row row' : StoredRow}
    (h : Rewrites y row s t) (h' : Rewrites y row' t u) : Rewrites y row' s u := by
  have hfields := h.fields
  obtain ⟨_, _, _, hfields⟩ := hfields
  refine { h' with fields := ?_, kept := fun k hk hne => ?_ }
  · obtain ⟨_, _, _, hfields'⟩ := h'.fields
    rw [hfields', hfields]
    exact ⟨_, _, _, rfl⟩
  · rw [h'.kept k (by rw [hfields]; exact hk) hne, h.kept k hk hne]

/-- Writing to the slot of row `y`. -/
theorem setLine_rewrites (hs : Ring s) {y : Nat} (hy : y < s.mTotalRows) (line : Option Line) :
    returns (setLine (s.screenSlot y) line)
      (fun _ t => Rewrites y { s.screenRow y with line := line } s t) s := by
  have hslot : s.screenSlot y < s.mLines.length := by
    rw [hs.lines]
    exact screenSlot_lt hs y
  have hset : arraySet (Exn.arrayIndexOutOfBounds .mLines) s.mLines (s.screenSlot y) line =
      .ok (s.mLines.set (s.screenSlot y) line) := arraySet_of_lt line hslot
  unfold setLine returns
  simp only [wp_bind, wp_get, hset, wp_checked_ok, wp_set]
  refine ⟨⟨_, _, _, rfl⟩, { hs with lines := List.length_set.trans hs.lines }, ?_,
    fun k hk hne => ?_⟩
  · show slot _ (s.screenSlot y) = _
    unfold slot screenRow slot
    simp only [List.getElem?_set_self hslot, Option.join_some]
  · show slot _ (s.screenSlot k) = slot s (s.screenSlot k)
    unfold slot
    simp only [List.getElem?_set_ne (screenSlot_ne (Ne.symm hne) hy hk)]

theorem setColor_rewrites (hs : Ring s) {y : Nat} (hy : y < s.mTotalRows)
    (color : Option StyleRow) :
    Rewrites y { s.screenRow y with color := color } s
      { s with mColor := s.mColor.set (s.screenSlot y) color } := by
  have hslot : s.screenSlot y < s.mColor.length := by
    rw [hs.colors]
    exact screenSlot_lt hs y
  refine ⟨⟨_, _, _, rfl⟩, { hs with colors := List.length_set.trans hs.colors }, ?_,
    fun k hk hne => ?_⟩
  · show slot _ (s.screenSlot y) = _
    unfold slot screenRow slot
    simp only [List.getElem?_set_self hslot, Option.join_some]
  · show slot _ (s.screenSlot k) = slot s (s.screenSlot k)
    unfold slot
    simp only [List.getElem?_set_ne (screenSlot_ne (Ne.symm hne) hy hk)]

theorem storeLineWrap_rewrites (hs : Ring s) {y : Nat} (hy : y < s.mTotalRows) (wrap : Bool) :
    returns (storeLineWrap (s.screenSlot y) wrap)
      (fun _ t => Rewrites y { s.screenRow y with wrap := wrap } s t) s := by
  have hslot : s.screenSlot y < s.mLineWrap.length := by
    rw [hs.flags]
    exact screenSlot_lt hs y
  have hset : arraySet (Exn.arrayIndexOutOfBounds .mLineWrap) s.mLineWrap (s.screenSlot y) wrap =
      .ok (s.mLineWrap.set (s.screenSlot y) wrap) := arraySet_of_lt wrap hslot
  unfold storeLineWrap returns
  simp only [wp_bind, wp_get, hset, wp_checked_ok, wp_set]
  refine ⟨⟨_, _, _, rfl⟩, { hs with flags := List.length_set.trans hs.flags }, ?_,
    fun k hk hne => ?_⟩
  · show slot _ (s.screenSlot y) = _
    unfold slot screenRow slot
    simp only [List.getElem?_set_self hslot, Option.getD_some]
  · show slot _ (s.screenSlot k) = slot s (s.screenSlot k)
    unfold slot
    simp only [List.getElem?_set_ne (screenSlot_ne (Ne.symm hne) hy hk)]

theorem lineAt_slot (hs : Ring s) (y : Nat) :
    lineAt (s.screenSlot y) s = .ok (s.screenRow y).line s := by
  have hslot : s.screenSlot y < s.mLines.length := by
    rw [hs.lines]
    exact screenSlot_lt hs y
  rw [lineAt_of (arrayGet_of_lt hslot)]
  unfold screenRow slot
  simp only [List.getElem?_eq_getElem hslot, Option.join_some]

theorem colorAt_slot (hs : Ring s) (y : Nat) :
    colorAt (s.screenSlot y) s = .ok (s.screenRow y).color s := by
  have hslot : s.screenSlot y < s.mColor.length := by
    rw [hs.colors]
    exact screenSlot_lt hs y
  rw [colorAt_of (arrayGet_of_lt hslot)]
  unfold screenRow slot
  simp only [List.getElem?_eq_getElem hslot, Option.join_some]

theorem screenRow_number {y : Nat} (hy : y < s.mScreenRows) :
    externalToInternalRow (y : Int) s = .ok (s.screenSlot y : Int) s := by
  rw [externalToInternalRow_eq, if_neg (by omega)]
  unfold internalRow screenSlot
  rw [if_pos (by omega)]
  push_cast
  rfl

theorem Rewrites.sizes {y : Nat} {row : StoredRow} (h : Rewrites y row s t) :
    t.mTotalRows = s.mTotalRows ∧ t.mScreenRows = s.mScreenRows ∧ t.mColumns = s.mColumns ∧
      t.mActiveTranscriptRows = s.mActiveTranscriptRows := by
  obtain ⟨_, _, _, rfl⟩ := h.fields
  exact ⟨rfl, rfl, rfl, rfl⟩

theorem Rewrites.plain {y : Nat} {row : StoredRow} (h : Rewrites y row s t) (hs : Plain s)
    (hrow : row.Plain s.mColumns) : Plain t := by
  obtain ⟨htotal, hscreen, hcolumns, _⟩ := h.sizes
  refine { h.ring with
    room := by rw [htotal, hscreen]; exact hs.room
    columns_int := by rw [hcolumns]; exact hs.columns_int
    rows_int := by rw [hscreen]; exact hs.rows_int
    rows := fun k hk => ?_ }
  rw [htotal] at hk
  rw [hcolumns]
  by_cases hky : k = y
  · rw [hky, h.rewritten]
    exact hrow
  · rw [h.kept k hk hky]
    exact hs.rows k hk

/-- A row of the screen that is changed is changed in the buffer. -/
theorem Rewrites.toBuffer_eq {y : Nat} {row : StoredRow} (h : Rewrites y row s t) (hs : Plain s)
    (hy : y < s.mScreenRows) (hrow : row.Plain s.mColumns) {f : Row Cell → Row Cell}
    (hf : row.toRow s.mColumns = f ((s.screenRow y).toRow s.mColumns)) :
    Plain t ∧ t.toBuffer = s.toBuffer.modifyRow y f := by
  have hroom := hs.room
  have hactive := hs.active_le
  obtain ⟨htotal, hscreen, hcolumns, hactiveRows⟩ := h.sizes
  refine ⟨h.plain hs hrow, ?_⟩
  unfold ScrollBuffer.modifyRow
  rw [if_neg (by omega), Int.toNat_natCast]
  refine ScrollBuffer.ext hcolumns ?_ ?_ ?_
  · show t.mTotalRows - t.mScreenRows = s.mTotalRows - s.mScreenRows
    rw [htotal, hscreen]
  · show (List.range t.mActiveTranscriptRows).map _ = (List.range s.mActiveTranscriptRows).map _
    rw [hactiveRows]
    refine List.map_congr_left fun i hi => ?_
    have hi' := List.mem_range.mp hi
    unfold historyRow
    rw [htotal, hactiveRows, hcolumns, h.kept _ (by omega) (by omega)]
  · apply List.ext_getElem?
    intro k
    show t.toBuffer.screen[k]? = (s.toBuffer.screen.modify y f)[k]?
    rw [List.getElem?_modify]
    by_cases hk : k < s.mScreenRows
    · rw [getElem?_screen (by omega), getElem?_screen hk, hcolumns]
      by_cases hky : k = y
      · rw [hky, h.rewritten, hf]
        exact congrArg some (if_pos rfl).symm
      · rw [h.kept k (by omega) hky]
        exact congrArg some (if_neg (Ne.symm hky)).symm
    · rw [List.getElem?_eq_none (by rw [length_screen]; omega),
        List.getElem?_eq_none (by rw [length_screen]; omega)]
      rfl

theorem historyRow_number (hs : Plain s) {i : Nat} (hi : i < s.mActiveTranscriptRows) :
    externalToInternalRow ((i : Int) - s.mActiveTranscriptRows) s =
      .ok (s.screenSlot (s.mTotalRows - s.mActiveTranscriptRows + i) : Int) s := by
  have hactive := hs.active_le
  have hfirst := hs.first_lt
  have hslot : s.internalRow ((i : Int) - s.mActiveTranscriptRows) =
      (s.screenSlot (s.mTotalRows - s.mActiveTranscriptRows + i) : Int) := by
    unfold internalRow screenSlot
    rw [if_neg (by omega)]
    by_cases hwrap : -((i : Int) - s.mActiveTranscriptRows) > s.mScreenFirstRow
    · rw [if_pos hwrap, Nat.mod_eq_of_lt (by omega)]
      omega
    · rw [if_neg hwrap, Nat.mod_eq_sub_mod (by omega), Nat.mod_eq_of_lt (by omega)]
      omega
  rw [externalToInternalRow_eq, if_neg (by omega), hslot]

/-- A row of the transcript that is changed is changed in the buffer. -/
theorem Rewrites.history_eq {i : Nat} {row : StoredRow}
    (h : Rewrites (s.mTotalRows - s.mActiveTranscriptRows + i) row s t) (hs : Plain s)
    (hi : i < s.mActiveTranscriptRows) (hrow : row.Plain s.mColumns) {f : Row Cell → Row Cell}
    (hf : row.toRow s.mColumns = f ((s.historyRow i).toRow s.mColumns)) :
    Plain t ∧ t.toBuffer = s.toBuffer.modifyRow ((i : Int) - s.mActiveTranscriptRows) f := by
  have hroom := hs.room
  have hactive := hs.active_le
  obtain ⟨htotal, hscreen, hcolumns, hactiveRows⟩ := h.sizes
  refine ⟨h.plain hs hrow, ?_⟩
  have hindex : ((s.mActiveTranscriptRows : Int) + (i - s.mActiveTranscriptRows)).toNat = i := by
    omega
  unfold ScrollBuffer.modifyRow
  rw [length_history, if_pos (by omega), if_neg (by omega), hindex]
  refine ScrollBuffer.ext hcolumns ?_ ?_ ?_
  · show t.mTotalRows - t.mScreenRows = s.mTotalRows - s.mScreenRows
    rw [htotal, hscreen]
  · apply List.ext_getElem?
    intro k
    show t.toBuffer.history[k]? = (s.toBuffer.history.modify i f)[k]?
    rw [List.getElem?_modify]
    by_cases hk : k < s.mActiveTranscriptRows
    · rw [getElem?_history (by omega), getElem?_history hk, hcolumns]
      unfold historyRow
      rw [htotal, hactiveRows]
      by_cases hki : k = i
      · rw [hki, h.rewritten, hf]
        exact congrArg some (if_pos rfl).symm
      · rw [h.kept _ (by omega) (by omega)]
        exact congrArg some (if_neg (Ne.symm hki)).symm
    · rw [List.getElem?_eq_none (by rw [length_history]; omega),
        List.getElem?_eq_none (by rw [length_history]; omega)]
      rfl
  · show (List.range t.mScreenRows).map _ = (List.range s.mScreenRows).map _
    rw [hscreen]
    refine List.map_congr_left fun k hk => ?_
    have hk' := List.mem_range.mp hk
    rw [hcolumns, h.kept k (by omega) (by omega)]

/-- Any row can be marked, of the screen or of the transcript. -/
theorem setLineWrap_toBuffer (hs : Plain s) {row : Int} (hrow : s.InRange row) :
    returns (setLineWrap row)
      (fun _ t => Plain t ∧ t.toBuffer = s.toBuffer.setLineWrap row) s := by
  have hroom := hs.room
  have hactive := hs.active_le
  obtain ⟨hlo, hhi⟩ := hrow
  unfold setLineWrap returns
  rw [wp_bind]
  by_cases hscreen : 0 ≤ row
  · obtain ⟨y, rfl⟩ := Int.eq_ofNat_of_zero_le hscreen
    have hy : y < s.mScreenRows := by omega
    rw [wp_of_ok (screenRow_number hy)]
    refine wp_of_returns (storeLineWrap_rewrites hs.toRing (show y < s.mTotalRows by omega) true)
      fun _ t ht => ht.toBuffer_eq hs hy ?_ rfl
    exact { hs.rows y (by omega) with }
  · obtain ⟨i, hi⟩ := Int.eq_ofNat_of_zero_le (show 0 ≤ s.mActiveTranscriptRows + row by omega)
    obtain rfl : row = (i : Int) - s.mActiveTranscriptRows := by omega
    have hi' : i < s.mActiveTranscriptRows := by omega
    have hslot : s.mTotalRows - s.mActiveTranscriptRows + i < s.mTotalRows := by omega
    rw [wp_of_ok (historyRow_number hs hi')]
    refine wp_of_returns (storeLineWrap_rewrites hs.toRing hslot true)
      fun _ t ht => ht.history_eq hs hi' ?_ rfl
    exact { hs.rows _ hslot with }

/-! ## §4  Characters and styles -/

/-- A row of styles with another style in one column. -/
theorem set_style_returns {columns x : Nat} {color : StyleRow} {style : Style}
    (hcolor : color.Holds Narrow columns) (hx : x < columns) (hstyle : Narrow style) :
    returns (StyleRow.set x style) (fun _ color' => color'.Holds Narrow columns ∧
      ∀ z < columns, (color'.get z).toOption.getD 0 =
        if z = x then style else (color.get z).toOption.getD 0) color := by
  have hnarrow (style : Style) (h : Narrow style) : Narrow (TextStyle.narrow style) := by
    rw [h]
    exact h
  have hset : returns (StyleRow.set x style) (fun _ _ => True) color := by
    unfold StyleRow.set returns
    rw [wp_bind, wp_get, wp_ite]
    refine ⟨fun _ => by rw [wp_pure]; trivial, fun _ => ?_⟩
    have hcells := hcolor.cells_data hnarrow
    have hdata : StyleRow.data { color with mData := some color.data } = color.data := rfl
    unfold StyleRow.ensureData
    rw [wp_bind, wp_modify, StyleRow.wp_setStyle (by rw [hdata]; exact hcells)]
    exact ⟨fun _ => trivial, fun hout => absurd ⟨Int.natCast_nonneg x, by omega⟩ hout⟩
  have hwrites := @StyleRow.wp_set_style _ _ _ x _ hcolor hnarrow hstyle
  refine wp_mono (wp_and hset hwrites) (fun _ color' h => ?_) fun _ _ h => h.1
  obtain ⟨_, hholds, hget, hkept⟩ := h
  refine ⟨hholds, fun z hz => ?_⟩
  by_cases hzx : z = x
  · rw [if_pos hzx, hzx, hget hstyle]
    rfl
  · obtain ⟨old, hold, hnarrowOld⟩ := hcolor.get hz
    rw [if_neg hzx, hkept z hz (by omega) old hnarrowOld hold, hold]

/-- The basic line of a row, or the one that is allocated for it. -/
def StoredRow.basicText (columns : Nat) (r : StoredRow) : List JChar :=
  match r.line with
  | some (.basic text) => text
  | _ => List.replicate columns 32

/-- The styles of a row, or those that are allocated along with its line. -/
def StoredRow.styles (columns : Nat) (r : StoredRow) : StyleRow :=
  r.color.getD (StyleRow.create 0 columns)

theorem StoredRow.Plain.length_basicText {columns : Nat} {r : StoredRow} (h : r.Plain columns) :
    (r.basicText columns).length = columns := by
  unfold StoredRow.basicText
  cases hline : r.line with
  | none => exact List.length_replicate
  | some line =>
      obtain ⟨text, rfl, hlength⟩ := h.text line hline
      exact hlength

theorem StoredRow.Plain.holds_styles {columns : Nat} {r : StoredRow} (h : r.Plain columns) :
    (r.styles columns).Holds Narrow columns := by
  unfold StoredRow.styles
  cases hcolor : r.color with
  | none => exact StyleRow.holds_create (by decide)
  | some color => exact h.style color hcolor

theorem StoredRow.Plain.charAt_eq {columns z : Nat} {r : StoredRow} (h : r.Plain columns)
    (hz : z < columns) : (r.basicText columns).getD z 32 = r.charAt z := by
  unfold StoredRow.basicText StoredRow.charAt
  cases hline : r.line with
  | none =>
      rw [List.getD_eq_getElem?_getD, List.getElem?_replicate, if_pos hz]
      rfl
  | some line =>
      obtain ⟨text, rfl, _⟩ := h.text line hline
      rfl

theorem StoredRow.styleAt_eq (r : StoredRow) (columns z : Nat) :
    ((r.styles columns).get z).toOption.getD 0 = r.styleAt z := by
  unfold StoredRow.styles StoredRow.styleAt
  cases r.color with
  | none => rfl
  | some color => rfl

/-- Nothing is to be allocated for a row with text. -/
theorem StoredRow.Plain.allocated {columns : Nat} {r : StoredRow} (h : r.Plain columns)
    (hline : r.line ≠ none) :
    { r with line := some (.basic (r.basicText columns)), color := some (r.styles columns) } = r := by
  obtain ⟨line, color, wrap⟩ := r
  cases line with
  | none => exact absurd rfl hline
  | some line =>
      obtain ⟨text, rfl, _⟩ := h.text line rfl
      cases color with
      | none => exact absurd rfl (h.color hline)
      | some color => rfl

theorem Rewrites.refl (hs : Ring s) (y : Nat) : Rewrites y (s.screenRow y) s s :=
  ⟨⟨_, _, _, rfl⟩, hs, rfl, fun _ _ _ => rfl⟩

theorem Rewrites.screenSlot {y : Nat} {row : StoredRow} (h : Rewrites y row s t) (k : Nat) :
    t.screenSlot k = s.screenSlot k := by
  obtain ⟨_, _, _, rfl⟩ := h.fields
  rfl

theorem setColor_returns (hs : Ring s) {y : Nat} (hy : y < s.mTotalRows)
    (color : Option StyleRow) : returns (setColor (s.screenSlot y) color)
      (fun _ t => Rewrites y { s.screenRow y with color := color } s t) s := by
  have hslot : s.screenSlot y < s.mColor.length := by
    rw [hs.colors]
    exact screenSlot_lt hs y
  unfold setColor returns
  simp only [wp_bind, wp_get, arraySet_of_lt color hslot, wp_checked_ok, wp_set]
  exact setColor_rewrites hs hy color

/-- The row has a basic line and styles from here on. -/
theorem allocateLine_rewrites (hs : Plain s) {y : Nat} (hy : y < s.mTotalRows)
    (hline : (s.screenRow y).line = none) :
    returns (allocateLine (s.screenSlot y) (.basic (List.replicate s.mColumns 32)))
      (fun _ t => Rewrites y
        { s.screenRow y with
          line := some (.basic ((s.screenRow y).basicText s.mColumns))
          color := some ((s.screenRow y).styles s.mColumns) } s t) s := by
  have htext : (s.screenRow y).basicText s.mColumns = List.replicate s.mColumns 32 := by
    unfold StoredRow.basicText
    rw [hline]
  unfold allocateLine returns
  rw [wp_bind]
  refine wp_of_returns (setLine_rewrites hs.toRing hy _) fun _ t ht => ?_
  have hfields := ht.fields
  obtain ⟨_, _, _, hfields⟩ := hfields
  have hsizes : t.mColumns = s.mColumns ∧ t.mTotalRows = s.mTotalRows := by
    rw [hfields]
    exact ⟨rfl, rfl⟩
  rw [← ht.screenSlot, wp_bind, wp_of_ok (colorAt_slot ht.ring y), ht.rewritten, wp_bind, wp_get,
    wp_when, htext, hsizes.1]
  refine ⟨fun hnone => ?_, fun hsome => ?_⟩
  · refine wp_of_returns (setColor_returns ht.ring (by rw [hsizes.2]; exact hy) _) fun _ u hu => ?_
    rw [ht.rewritten] at hu
    have hstyles : (s.screenRow y).styles s.mColumns = StyleRow.create 0 s.mColumns := by
      unfold StoredRow.styles
      rw [hnone]
      rfl
    rw [hstyles]
    exact ht.trans hu
  · obtain ⟨color, hcolor⟩ := Option.ne_none_iff_exists'.mp hsome
    have hstyles : some ((s.screenRow y).styles s.mColumns) = (s.screenRow y).color := by
      unfold StoredRow.styles
      rw [hcolor]
      rfl
    rw [hstyles]
    exact ht

/-- Row `r` with another cell in column `x`. -/
theorem StoredRow.toRow_set {columns x : Nat} {r : StoredRow} (hr : r.Plain columns)
    {color : StyleRow} {style : Style} {c : JChar}
    (hcolor : ∀ z < columns, (color.get z).toOption.getD 0 =
      if z = x then style else ((r.styles columns).get z).toOption.getD 0) :
    StoredRow.toRow columns
        { r with line := some (.basic ((r.basicText columns).set x c)), color := some color } =
      { r.toRow columns with cells := (r.toRow columns).cells.set x (c, style) } := by
  have hcells : (List.range columns).map (fun z =>
      (((r.basicText columns).set x c).getD z 32, (color.get z).toOption.getD 0)) =
        ((List.range columns).map fun z => (r.charAt z, r.styleAt z)).set x (c, style) := by
    apply List.ext_getElem?
    intro z
    rw [List.getElem?_set, List.length_map, List.length_range]
    by_cases hz : z < columns
    · rw [List.getElem?_map, List.getElem?_map, List.getElem?_range hz, Option.map_some,
        Option.map_some, hcolor z hz]
      by_cases hzx : z = x
      · subst hzx
        rw [if_pos rfl, if_pos rfl, if_pos hz, List.getD_eq_getElem?_getD,
          List.getElem?_set_self (by rw [hr.length_basicText]; exact hz)]
        rfl
      · rw [if_neg hzx, if_neg (Ne.symm hzx), List.getD_eq_getElem?_getD,
          List.getElem?_set_ne (Ne.symm hzx), ← List.getD_eq_getElem?_getD, hr.charAt_eq hz,
          r.styleAt_eq columns]
    · rw [List.getElem?_eq_none (by rw [List.length_map, List.length_range]; omega),
        List.getElem?_eq_none (by rw [List.length_map, List.length_range]; omega)]
      by_cases hzx : x = z
      · rw [if_pos hzx, if_neg (by omega)]
      · rw [if_neg hzx]
  unfold StoredRow.toRow
  rw [← hcells]
  rfl

variable [Platform]

theorem setChar_rewrites (hs : Plain s) {x y : Nat} (hx : x < s.mColumns) (hy : y < s.mScreenRows)
    {c : Int} (hc : isBasicChar c) :
    returns (setChar x y c) (fun _ t => Rewrites y
      { s.screenRow y with
        line := some (.basic (((s.screenRow y).basicText s.mColumns).set x (toJChar c)))
        color := some ((s.screenRow y).styles s.mColumns) } s t) s := by
  have hroom := hs.room
  have hytotal : y < s.mTotalRows := by omega
  have hrow := hs.rows y hytotal
  have hallocate : returns (when ((s.screenRow y).line = none)
      (allocateLine (s.screenSlot y) (if isBasicChar c then .basic (List.replicate s.mColumns 32)
        else .full (FullUnicodeLine.create s.mColumns))))
      (fun _ t => Rewrites y
        { s.screenRow y with
          line := some (.basic ((s.screenRow y).basicText s.mColumns))
          color := some ((s.screenRow y).styles s.mColumns) } s t) s := by
    rw [returns, wp_when, if_pos hc]
    refine ⟨fun hnone => allocateLine_rewrites hs hytotal hnone, fun hsome => ?_⟩
    rw [hrow.allocated hsome]
    exact .refl hs.toRing y
  unfold setChar returns
  rw [wp_bind, wp_get, wp_bind, wp_throwIf]
  refine ⟨fun hout => by omega, fun _ => ?_⟩
  rw [wp_bind, wp_of_ok (screenRow_number hy), wp_bind, wp_of_ok (lineAt_slot hs.toRing y), wp_bind]
  refine wp_of_returns hallocate fun _ t ht => ?_
  have htext : x < ((s.screenRow y).basicText s.mColumns).length := by
    rw [hrow.length_basicText]
    exact hx
  rw [← ht.screenSlot, wp_bind, wp_of_ok (lineAt_slot ht.ring y), ht.rewritten]
  simp only [hc, if_true, arraySet_of_lt (toJChar c) htext, wp_bind, wp_checked_ok]
  have hytotal' : y < t.mTotalRows := by
    obtain ⟨_, _, _, hfields⟩ := ht.fields
    rw [hfields]
    exact hytotal
  refine wp_of_returns (setLine_rewrites ht.ring hytotal' _) fun _ u hu => ?_
  rw [ht.rewritten] at hu
  exact ht.trans hu

theorem setCharStyle_rewrites (hs : Plain s) {x y : Nat} (hx : x < s.mColumns)
    (hy : y < s.mScreenRows) {c : Int} (hc : isBasicChar c) {style : Style} (hstyle : Narrow style) :
    returns (setCharStyle x y c style) (fun _ t => ∃ color : StyleRow,
      color.Holds Narrow s.mColumns ∧
      (∀ z < s.mColumns, (color.get z).toOption.getD 0 =
        if z = x then style else (((s.screenRow y).styles s.mColumns).get z).toOption.getD 0) ∧
      Rewrites y { s.screenRow y with
        line := some (.basic (((s.screenRow y).basicText s.mColumns).set x (toJChar c)))
        color := some color } s t) s := by
  have hroom := hs.room
  have hrow := hs.rows y (by omega)
  unfold setCharStyle returns
  rw [wp_bind]
  refine wp_of_returns (setChar_rewrites hs hx hy hc) fun _ t ht => ?_
  have hfields := ht.fields
  obtain ⟨_, _, _, hfields⟩ := hfields
  have hsizes : t.mScreenRows = s.mScreenRows ∧ t.mTotalRows = s.mTotalRows := by
    rw [hfields]
    exact ⟨rfl, rfl⟩
  rw [wp_bind, wp_of_ok (screenRow_number (by rw [hsizes.1]; exact hy)), wp_bind,
    wp_of_ok (colorAt_slot ht.ring y), ht.rewritten, nonNull, wp_bind, wp_pure, wp_runOn]
  refine wp_of_returns (set_style_returns hrow.holds_styles hx hstyle) fun _ color hcolor => ?_
  refine ⟨color, hcolor.1, hcolor.2, ht.trans ?_⟩
  have hput := setColor_rewrites ht.ring (show y < t.mTotalRows by omega) (some color)
  rw [ht.rewritten] at hput
  exact hput

theorem setCharStyle_toBuffer (hs : Plain s) {x y : Nat} (hx : x < s.mColumns)
    (hy : y < s.mScreenRows) {c : Int} (hc : isBasicChar c) {style : Style} (hstyle : Narrow style) :
    returns (setCharStyle x y c style)
      (fun _ t => Plain t ∧ t.toBuffer = s.toBuffer.set x y (toJChar c, style)) s := by
  have hroom := hs.room
  have hrow := hs.rows y (by omega)
  refine wp_of_returns (setCharStyle_rewrites hs hx hy hc hstyle) fun _ t ht => ?_
  obtain ⟨color, hholds, hcolor, ht⟩ := ht
  refine ht.toBuffer_eq hs hy ?_ (StoredRow.toRow_set hrow hcolor)
  refine ⟨fun line hline => ?_, fun color' hcolor' => ?_, fun _ h => by cases h⟩
  · cases hline
    exact ⟨_, rfl, by rw [List.length_set, hrow.length_basicText]⟩
  · cases hcolor'
    exact hholds

/-- The style in column `x` stays. -/
theorem setChar_toBuffer (hs : Plain s) {x y : Nat} (hx : x < s.mColumns) (hy : y < s.mScreenRows)
    {c : Int} (hc : isBasicChar c) : returns (setChar x y c)
      (fun _ t => Plain t ∧ t.toBuffer = setGlyph s.toBuffer x y (toJChar c)) s := by
  have hroom := hs.room
  have hrow := hs.rows y (by omega)
  have hsame : ∀ z < s.mColumns, (((s.screenRow y).styles s.mColumns).get z).toOption.getD 0 =
      if z = x then (s.screenRow y).styleAt x
      else (((s.screenRow y).styles s.mColumns).get z).toOption.getD 0 := by
    intro z _
    by_cases hzx : z = x
    · rw [if_pos hzx, hzx, StoredRow.styleAt_eq]
    · rw [if_neg hzx]
  have hcell : ((s.screenRow y).toRow s.mColumns).cells.modify x (fun cell => (toJChar c, cell.2)) =
      ((s.screenRow y).toRow s.mColumns).cells.set x (toJChar c, (s.screenRow y).styleAt x) := by
    apply List.ext_getElem?
    intro z
    rw [List.getElem?_modify, List.getElem?_set]
    by_cases hxz : x = z
    · subst hxz
      simp only [StoredRow.toRow, List.getElem?_map, List.getElem?_range hx, List.length_map,
        List.length_range, hx, if_true, Option.map_some]
      rfl
    · simp only [hxz, if_false, Option.map_eq_map, Option.map_id']
  refine wp_of_returns (setChar_rewrites hs hx hy hc) fun _ t ht => ?_
  refine ht.toBuffer_eq hs hy ?_ ?_
  · refine ⟨fun line hline => ?_, fun color hcolor => ?_, fun _ h => by cases h⟩
    · cases hline
      exact ⟨_, rfl, by rw [List.length_set, hrow.length_basicText]⟩
    · cases hcolor
      exact hrow.holds_styles
  · rw [StoredRow.toRow_set hrow hsame, hcell]

/-! ## §5  Rectangles -/

/-- Row `y`, up to column `w` of the rectangle. -/
theorem fillRow_toBuffer (hs : Plain s) {sx y w : Nat} (hx : sx + w ≤ s.mColumns)
    (hy : y < s.mScreenRows) {val : Int} (hval : isBasicChar val) {style : Style}
    (hstyle : Narrow style) :
    returns (repeatFor w fun x => setCharStyle (sx + x) y val style)
      (fun _ t => Plain t ∧ t.toBuffer = s.toBuffer.blockSet sx y w 1 (toJChar val, style)) s := by
  have hfilled := @returns_repeatFor _ _ (fun x : Nat => setCharStyle (sx + x) y val style)
    (fun x t => Plain t ∧ t.toBuffer = s.toBuffer.blockSet sx y x 1 (toJChar val, style)) w s
  refine hfilled ⟨hs, (ScrollBuffer.blockSet_empty _ _ (.inl rfl)).symm⟩ fun x t hx' ht => ?_
  obtain ⟨ht, hbuffer⟩ := ht
  have hcolumns : t.mColumns = s.mColumns := congrArg ScrollBuffer.columns hbuffer
  have hrows : t.mScreenRows = s.mScreenRows := by
    have hlength := congrArg (fun b => b.screen.length) hbuffer
    simpa only [length_screen, ScrollBuffer.blockSet, ScrollBuffer.overwrite,
      List.length_mapIdx] using hlength
  have hset := setCharStyle_toBuffer ht (show sx + x < t.mColumns by omega)
    (show y < t.mScreenRows by omega) hval hstyle
  rw [hbuffer, ScrollBuffer.blockSet_set] at hset
  push_cast at hset
  exact hset

theorem blockSet_toBuffer (hs : Plain s) {sx sy w h : Nat} (hx : sx + w ≤ s.mColumns)
    (hy : sy + h ≤ s.mScreenRows) {val : Int} (hval : isBasicChar val) {style : Style}
    (hstyle : Narrow style) :
    returns (blockSet sx sy w h val style)
      (fun _ t => Plain t ∧ t.toBuffer = s.toBuffer.blockSet sx sy w h (toJChar val, style)) s := by
  have hfilled := @returns_repeatFor _ _ (fun y : Nat => repeatFor w fun x : Nat =>
      setCharStyle (sx + x) (sy + y) val style)
    (fun y t => Plain t ∧ t.toBuffer = s.toBuffer.blockSet sx sy w y (toJChar val, style)) h s
  unfold blockSet returns
  rw [wp_bind, wp_get, wp_bind, wp_throwIf, iadd_natCast hx hs.columns_int,
    iadd_natCast hy hs.rows_int]
  refine ⟨fun hout => by omega, fun _ => ?_⟩
  refine hfilled ⟨hs, (ScrollBuffer.blockSet_empty _ _ (.inr rfl)).symm⟩ fun y t hy' ht => ?_
  obtain ⟨ht, hbuffer⟩ := ht
  have hcolumns : t.mColumns = s.mColumns := congrArg ScrollBuffer.columns hbuffer
  have hrows : t.mScreenRows = s.mScreenRows := by
    have hlength := congrArg (fun b => b.screen.length) hbuffer
    simpa only [length_screen, ScrollBuffer.blockSet, ScrollBuffer.overwrite,
      List.length_mapIdx] using hlength
  have hrow := fillRow_toBuffer ht (show sx + w ≤ t.mColumns by omega)
    (show sy + y < t.mScreenRows by omega) hval hstyle
  rw [hbuffer, ScrollBuffer.blockSet_row] at hrow
  push_cast at hrow
  exact hrow

end UnicodeTranscript

end Kbox.Emulatorview
