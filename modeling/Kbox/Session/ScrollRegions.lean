import Kbox.Session.LineEdits
import Kbox.Session.ScreenRuns
import Kbox.Framework.ScrollRegion

/-!
# The scroll region

What LF, IND, NEL, RI and a character that wraps do to the rows on either side
of the margins.
-/

namespace Kbox.Session.TerminalEmulator

open Kbox.Framework ScrollBuffer

/-! ## §1  The region -/

/-- The emulator, as far as a scroll region is concerned. -/
def regionView (s : TerminalEmulator) : RegionView (Row JChar) where
  rows := s.buffer.screen
  history := s.buffer.history
  top := s.mTopMargin
  bottom := s.mBottomMargin
  cursor := s.mCursorRow
  scrolls := s.mScrollCounter

instance (s : TranscriptScreen) : Decidable s.WellFormed :=
  decidable_of_iff
    ((0 < s.mColumns ∧ s.mScreenRows < s.mTotalRows ∧
        (s.mColumns : Int) * s.mTotalRows ≤ intMax ∧ 2 * (s.mTotalRows : Int) ≤ intMax) ∧
      s.mData.length = s.mTotalRows * s.mColumns ∧
      s.mActiveTranscriptRows ≤ s.mTotalRows - s.mScreenRows ∧
      s.mActiveRows = s.mScreenRows + s.mActiveTranscriptRows ∧
      (s.mActiveTranscriptRows < s.mTotalRows - s.mScreenRows → s.mHead = 0) ∧
      (0 < s.mActiveTranscriptRows → s.mHead < s.mActiveTranscriptRows) ∧
      s.mLineWrap.length = s.mTotalRows ∧ s.mRowBuffer.length = s.mColumns)
    ⟨fun ⟨⟨h1, h2, h3, h4⟩, h5, h6, h7, h8, h9, h10, h11⟩ =>
        ⟨⟨⟨h1, h2, h3, h4⟩, h5⟩, h6, h7, h8, h9, h10, h11⟩,
      fun ⟨⟨⟨h1, h2, h3, h4⟩, h5⟩, h6, h7, h8, h9, h10, h11⟩ =>
        ⟨⟨h1, h2, h3, h4⟩, h5, h6, h7, h8, h9, h10, h11⟩⟩

instance (s : TerminalEmulator) : Decidable (Consistent s) :=
  decidable_of_iff (s.mScreen.WellFormed ∧ (s.mScreen.mColumns : Int) = s.mColumns ∧
      (s.mScreen.mScreenRows : Int) = s.mRows)
    ⟨fun ⟨h1, h2, h3⟩ => ⟨h1, h2, h3⟩, fun ⟨h1, h2, h3⟩ => ⟨h1, h2, h3⟩⟩

/-- The cursor is on the screen, and there is a region. -/
structure Placed (s : TerminalEmulator) : Prop extends Consistent s where
  row : 0 ≤ s.mCursorRow ∧ s.mCursorRow < s.mRows
  column : 0 ≤ s.mCursorCol ∧ s.mCursorCol < s.mColumns
  margins : 0 ≤ s.mTopMargin ∧ s.mTopMargin < s.mBottomMargin ∧ s.mBottomMargin ≤ s.mRows

/-- What goes to another row. -/
inductive RowOp
  | lineFeed
  | index
  | nextLine
  | reverseIndex
  | print (b : JByte)

namespace RowOp

def body : RowOp → EmulatorM Unit
  | lineFeed => process 10
  | index => doEsc 68
  | nextLine => doEsc 69
  | reverseIndex => doEsc 77
  | print b => emit b

def move : RowOp → RegionView.Move
  | lineFeed | index | nextLine => .down
  | reverseIndex => .up
  | print _ => .wrap

/-- A character is about to wrap. -/
def Applies (s : TerminalEmulator) : RowOp → Prop
  | print _ => s.mCursorCol = s.mColumns - 1 ∧ s.mAboutToAutoWrap
  | _ => True

instance (s : TerminalEmulator) (op : RowOp) : Decidable (op.Applies s) := by
  cases op <;> unfold Applies <;> infer_instance

end RowOp

instance (s : TerminalEmulator) : Decidable (Placed s) :=
  decidable_of_iff
    (Consistent s ∧ (0 ≤ s.mCursorRow ∧ s.mCursorRow < s.mRows) ∧
      (0 ≤ s.mCursorCol ∧ s.mCursorCol < s.mColumns) ∧
      0 ≤ s.mTopMargin ∧ s.mTopMargin < s.mBottomMargin ∧ s.mBottomMargin ≤ s.mRows)
    ⟨fun ⟨h1, h2, h3, h4⟩ => ⟨h1, h2, h3, h4⟩, fun ⟨h1, h2, h3, h4⟩ => ⟨h1, h2, h3, h4⟩⟩

variable {s t : TerminalEmulator}

theorem length_buffer (s : TerminalEmulator) : s.buffer.screen.length = s.mScreen.mScreenRows := by
  rw [← ScrollBuffer.length_cells]
  exact TranscriptScreen.length_cells_toBuffer _

theorem op_draws (hs : s.mScreen.WellFormed) {op : ScreenOp} (hop : op.InRange s.buffer) :
    returns (onScreen op.run) (fun _ t => Draws s (op.edit s.buffer) t) s := by
  unfold onScreen returns
  rw [wp_onField]
  exact wp_mono (ScreenOp.run_toBuffer hs hop) (fun _ _ h => ⟨⟨_, rfl⟩, h.1, h.2⟩) fun _ _ h => h

theorem Draws.editsConsistent {R : Nat → Prop} {b : ScrollBuffer JChar} (h : Draws s b t)
    (hs : Consistent s) (hb : EditsRows R s.buffer b) : Consistent t :=
  h.consistent hs hb.columns (by
    rw [ScrollBuffer.length_cells, ScrollBuffer.length_cells]
    exact hb.length)

/-! ## §2  Line feeds -/

theorem cursor_locks (hs : Placed s) {m : RegionView.Move} {row : Int}
    (hup : s.mCursorRow - 1 ≤ row) (hdown : row ≤ s.mCursorRow + 1) (hin : 0 ≤ row ∧ row < s.mRows) :
    RegionView.LocksAhead m s.regionView { s.regionView with cursor := row } := by
  refine RegionView.locksAhead_of_moved hup hdown hin.1 ?_
  show row < (s.buffer.screen.length : Int)
  rw [length_buffer, hs.rows]
  exact hin.2

/-- The region scrolled, and the cursor is in its last row. -/
theorem scroll_draws (hs : Placed s) :
    returns scroll (fun _ t => Draws
      { s with mScrollCounter := iadd s.mScrollCounter 1 }
      (s.buffer.scroll s.mTopMargin.toNat s.mBottomMargin.toNat s.blank) t) s := by
  obtain ⟨htop, hlt, hle⟩ := hs.margins
  have hrows := hs.rows
  have hcall : ScreenOp.InRange s.buffer (.scroll s.mTopMargin.toNat s.mBottomMargin.toNat
      s.getForeColor s.getBackColor) := by
    refine ⟨by omega, ?_⟩
    rw [length_buffer]
    omega
  have hdraw := @op_draws { s with mScrollCounter := iadd s.mScrollCounter 1 } hs.screen _ hcall
  have hcastTop : ((s.mTopMargin.toNat : Nat) : Int) = s.mTopMargin := by omega
  have hcastBottom : ((s.mBottomMargin.toNat : Nat) : Int) = s.mBottomMargin := by omega
  unfold scroll returns
  rw [wp_bind, wp_modify, wp_bind, wp_get]
  simp only [ScreenOp.run, hcastTop, hcastBottom] at hdraw
  exact hdraw

theorem scroll_rows (hs : Placed s) {y : Nat} (hy : ¬ s.regionView.Inside y) (v : JChar) :
    (s.buffer.scroll s.mTopMargin.toNat s.mBottomMargin.toNat v).screen[y]? =
      s.buffer.screen[y]? := by
  obtain ⟨htop, hlt, hle⟩ := hs.margins
  have hrows := hs.rows
  have hout : ¬ (s.mTopMargin ≤ y ∧ (y : Int) < s.mBottomMargin) := hy
  refine screen_scroll_of_outside (by omega) ?_ (by omega)
  rw [length_buffer]
  omega

theorem doLinefeed_locks (hs : Placed s) :
    wp doLinefeed (fun _ t => RegionView.LocksAhead .down s.regionView t.regionView)
      (fun _ _ => False) s := by
  obtain ⟨htop, hlt, hle⟩ := hs.margins
  obtain ⟨hrow, hrow'⟩ := hs.row
  have hrows := hs.rows
  unfold doLinefeed
  rw [wp_bind, wp_get, wp_ite]
  refine ⟨fun hlast => ?_, fun hmore => ?_⟩
  · rw [wp_bind]
    refine wp_of_returns (scroll_draws hs) fun _ t ht => ?_
    rw [setCursorRow, wp_modify]
    by_cases hin : s.regionView.Inside s.mCursorRow
    · refine RegionView.locksAhead_of_inside hin fun y hy => ?_
      show t.buffer.screen[y]? = _
      rw [ht.buffer]
      exact scroll_rows hs hy _
    · refine RegionView.locksAhead_of_not hin fun hahead => ?_
      have habove : s.mCursorRow < s.mTopMargin := hahead
      omega
  · rw [setCursorRow, wp_modify]
    have hin : 0 ≤ s.mCursorRow + 1 ∧ s.mCursorRow + 1 < s.mRows := by omega
    exact cursor_locks hs (show s.mCursorRow - 1 ≤ s.mCursorRow + 1 by omega) (Int.le_refl _) hin

/-- Where the column of the cursor is plays no part. -/
theorem nextLine_locks (hs : Placed s) :
    wp (do
        setCursorCol 0
        doLinefeed : EmulatorM Unit)
      (fun _ t => RegionView.LocksAhead .down s.regionView t.regionView) (fun _ _ => False) s := by
  have hcolumn : 0 < s.mColumns := by
    have hcolumn := hs.column
    omega
  rw [wp_bind, setCursorCol, wp_modify]
  exact doLinefeed_locks (s := { s with mCursorCol := 0, mAboutToAutoWrap := false })
    { hs with column := ⟨Int.le_refl _, hcolumn⟩ }

/-! ## §3  Reverse index -/

theorem reverseIndex_locks (hs : Placed s) :
    wp reverseIndex (fun _ t => RegionView.LocksAhead .up s.regionView t.regionView)
      (fun _ _ => False) s := by
  obtain ⟨htop, hlt, hle⟩ := hs.margins
  obtain ⟨hrow, hrow'⟩ := hs.row
  have hrows := hs.rows
  unfold reverseIndex
  rw [wp_bind, wp_get, wp_ite]
  refine ⟨fun hfirst => ?_, fun hmore => ?_⟩
  · have hedit : returns (do
          onScreen (TranscriptScreen.blockCopy 0 s.mTopMargin s.mColumns
            (s.mBottomMargin - (s.mTopMargin + 1)) 0 (s.mTopMargin + 1))
          blockClear 0 s.mTopMargin s.mColumns 1 : EmulatorM Unit)
        (fun _ t => Draws s (s.buffer.moveAndClear 0 s.mTopMargin.toNat s.mScreen.mColumns
          (s.mBottomMargin - (s.mTopMargin + 1)).toNat 0 (s.mTopMargin.toNat + 1) 0
          s.mTopMargin.toNat s.mScreen.mColumns 1 s.blank) t) s := by
      have hdraw := moveAndClear_draws hs.toConsistent (show 0 + s.mScreen.mColumns ≤ _ by omega)
        (show s.mTopMargin.toNat + (s.mBottomMargin - (s.mTopMargin + 1)).toNat ≤ _ by omega)
        (show 0 + s.mScreen.mColumns ≤ _ by omega)
        (show s.mTopMargin.toNat + 1 + (s.mBottomMargin - (s.mTopMargin + 1)).toNat ≤ _ by omega)
        (show 0 + s.mScreen.mColumns ≤ _ by omega) (show s.mTopMargin.toNat + 1 ≤ _ by omega)
      have htopCast : ((s.mTopMargin.toNat : Nat) : Int) = s.mTopMargin := by omega
      have hnextCast : ((s.mTopMargin.toNat + 1 : Nat) : Int) = s.mTopMargin + 1 := by omega
      have hheightCast : (((s.mBottomMargin - (s.mTopMargin + 1)).toNat : Nat) : Int) =
          s.mBottomMargin - (s.mTopMargin + 1) := by omega
      rw [htopCast, hnextCast, hheightCast, hs.columns] at hdraw
      exact hdraw
    refine wp_of_returns hedit fun _ t ht => ?_
    by_cases hin : s.regionView.Inside s.mCursorRow
    · refine RegionView.locksAhead_of_inside hin fun y hy => ?_
      have hout : ¬ (s.mTopMargin ≤ y ∧ (y : Int) < s.mBottomMargin) := hy
      show t.buffer.screen[y]? = s.buffer.screen[y]?
      rw [ht.buffer]
      refine ((editsRows_overwrite (R := fun y => s.mTopMargin ≤ y ∧ (y : Int) < s.mBottomMargin)
        s.buffer _ _ _ ?_).trans (editsRows_overwrite _ _ _ _ ?_)).kept y hout
      · intro y' hlo hhi
        constructor <;> omega
      · intro y' hlo hhi
        constructor <;> omega
    · refine RegionView.locksAhead_of_not hin fun hahead => ?_
      have hbelow : s.mBottomMargin ≤ s.mCursorRow := hahead
      omega
  · rw [wp_set]
    have hin : 0 ≤ s.mCursorRow - 1 ∧ s.mCursorRow - 1 < s.mRows := by omega
    exact cursor_locks hs (Int.le_refl _) (show s.mCursorRow - 1 ≤ s.mCursorRow + 1 by omega) hin

/-! ## §4  A character that wraps -/

/-- Something was drawn in the row of the cursor, which may have changed its column. -/
structure DrawnAt (s t : TerminalEmulator) : Prop extends Consistent t where
  fields : ∃ screen column wrap, t =
    { s with mScreen := screen, mCursorCol := column, mAboutToAutoWrap := wrap }
  edits : EditsRows (fun y => (y : Int) = s.mCursorRow) s.buffer t.buffer

theorem Draws.drawnAt {b : ScrollBuffer JChar} (h : Draws s b t) (hs : Consistent s)
    (hb : EditsRows (fun y => (y : Int) = s.mCursorRow) s.buffer b) : DrawnAt s t := by
  refine { h.editsConsistent hs hb with fields := ?_, edits := ?_ }
  · obtain ⟨screen, rfl⟩ := h.fields
    exact ⟨screen, _, _, rfl⟩
  · rw [h.buffer]
    exact hb

theorem Draws.column {b : ScrollBuffer JChar} (h : Draws s b t) : t.mCursorCol = s.mCursorCol := by
  obtain ⟨_, rfl⟩ := h.fields
  rfl

theorem DrawnAt.trans {u : TerminalEmulator} (h : DrawnAt s t) (h' : DrawnAt t u) :
    DrawnAt s u := by
  obtain ⟨_, _, _, hfields⟩ := h.fields
  have hcursor : t.mCursorRow = s.mCursorRow := by rw [hfields]
  refine { h'.toConsistent with fields := ?_, edits := h.edits.trans (h'.edits.mono ?_) }
  · obtain ⟨_, _, _, hfields'⟩ := h'.fields
    rw [hfields', hfields]
    exact ⟨_, _, _, rfl⟩
  · intro y hy
    rw [← hcursor]
    exact hy

theorem editsRows_cursorRow (hrow : 0 ≤ s.mCursorRow) (f : Row JChar → Row JChar) :
    EditsRows (fun y => (y : Int) = s.mCursorRow) s.buffer (s.buffer.modifyRow s.mCursorRow f) := by
  have hcast : ((s.mCursorRow.toNat : Nat) : Int) = s.mCursorRow := by omega
  have hedits := editsRows_modifyRow (R := fun y => (y : Int) = s.mCursorRow) s.buffer hcast f
  rw [hcast] at hedits
  exact hedits

theorem moveRight_drawnAt (hs : Consistent s) (hrow : 0 ≤ s.mCursorRow ∧ s.mCursorRow < s.mRows)
    (hcolumn : 0 ≤ s.mCursorCol) :
    returns moveRight (fun _ t => DrawnAt s t ∧ t.mCursorCol = s.mCursorCol) s := by
  have hcolumns := hs.columns
  have hrows := hs.rows
  unfold moveRight returns
  rw [wp_bind, wp_get, wp_ite]
  refine ⟨fun hfits => ?_, fun _ => ?_⟩
  · have hcall : ScreenOp.InRange s.buffer (.blockCopy s.mCursorCol.toNat s.mCursorRow.toNat
        (s.mColumns - (s.mCursorCol + 1)).toNat 1 (s.mCursorCol.toNat + 1) s.mCursorRow.toNat) := by
      have hwidth : s.buffer.columns = s.mScreen.mColumns := rfl
      have hlength := s.length_buffer
      refine ⟨⟨?_, ?_⟩, ?_, ?_⟩ <;> omega
    have hdraw := op_draws hs.screen hcall
    have hcolumnCast : ((s.mCursorCol.toNat : Nat) : Int) = s.mCursorCol := by omega
    have hrowCast : ((s.mCursorRow.toNat : Nat) : Int) = s.mCursorRow := by omega
    have hwidthCast : (((s.mColumns - (s.mCursorCol + 1)).toNat : Nat) : Int) =
        s.mColumns - (s.mCursorCol + 1) := by omega
    have hdestCast : ((s.mCursorCol.toNat + 1 : Nat) : Int) = s.mCursorCol + 1 := by omega
    simp only [ScreenOp.run, hcolumnCast, hrowCast, hwidthCast, hdestCast] at hdraw
    refine wp_of_returns hdraw fun _ t ht => ⟨ht.drawnAt hs ?_, ht.column⟩
    simp only [ScreenOp.edit, ScrollBuffer.blockCopy]
    refine editsRows_overwrite _ _ _ _ fun y hlo hhi => ?_
    show (y : Int) = s.mCursorRow
    omega
  · rw [wp_pure]
    exact ⟨{ hs with fields := ⟨_, _, _, rfl⟩, edits := .refl _ _ }, rfl⟩

/-- The cell under the cursor gets a character. -/
theorem set_drawnAt (hs : Consistent s) (hrow : 0 ≤ s.mCursorRow ∧ s.mCursorRow < s.mRows)
    (hcolumn : 0 ≤ s.mCursorCol ∧ s.mCursorCol < s.mColumns) (b : Int) :
    returns (onScreen (TranscriptScreen.set s.mCursorCol s.mCursorRow b s.getForeColor
      s.getBackColor)) (fun _ t => DrawnAt s t) s := by
  have hcolumns := hs.columns
  have hrows := hs.rows
  have hcall : ScreenOp.InRange s.buffer (.set s.mCursorCol.toNat s.mCursorRow b s.getForeColor
      s.getBackColor) := by
    have hwidth : s.buffer.columns = s.mScreen.mColumns := rfl
    have hlength := s.length_buffer
    refine ⟨?_, ?_, ?_⟩ <;> omega
  have hdraw := op_draws hs.screen hcall
  have hcolumnCast : ((s.mCursorCol.toNat : Nat) : Int) = s.mCursorCol := by omega
  simp only [ScreenOp.run, hcolumnCast] at hdraw
  refine wp_of_returns hdraw fun _ t ht => ht.drawnAt hs ?_
  exact editsRows_cursorRow hrow.1 _

theorem setLineWrap_drawnAt (hs : Consistent s)
    (hrow : 0 ≤ s.mCursorRow ∧ s.mCursorRow < s.mRows) :
    returns (onScreen (TranscriptScreen.setLineWrap s.mCursorRow)) (fun _ t => DrawnAt s t) s := by
  have hrows := hs.rows
  have hcall : ScreenOp.InRange s.buffer (.setLineWrap s.mCursorRow) := by
    have hlength := s.length_buffer
    refine ⟨?_, ?_⟩ <;> omega
  refine wp_of_returns (op_draws hs.screen hcall) fun _ t ht => ht.drawnAt hs ?_
  exact editsRows_cursorRow hrow.1 _

/-- What `emit` does behind the wrap. -/
theorem drawChar_drawnAt (hs : Consistent s) (hrow : 0 ≤ s.mCursorRow ∧ s.mCursorRow < s.mRows)
    (hcolumn : 0 ≤ s.mCursorCol ∧ s.mCursorCol < s.mColumns) (b : JByte) :
    returns (do
        when (← get).mInsertMode moveRight
        let s ← get
        onScreen (TranscriptScreen.set s.mCursorCol s.mCursorRow b.toInt s.getForeColor
          s.getBackColor)
        modify fun s => { s with
          mAboutToAutoWrap := decide (s.mCursorCol = s.mColumns - 1)
          mCursorCol := min (s.mCursorCol + 1) (s.mColumns - 1) } : EmulatorM Unit)
      (fun _ t => DrawnAt s t) s := by
  rw [returns, wp_bind, wp_get, wp_bind]
  have hmoved : returns (when s.mInsertMode moveRight)
      (fun _ t => DrawnAt s t ∧ t.mCursorCol = s.mCursorCol) s := by
    rw [returns, wp_when]
    refine ⟨fun _ => moveRight_drawnAt hs hrow hcolumn.1, fun _ => ?_⟩
    exact ⟨{ hs with fields := ⟨_, _, _, rfl⟩, edits := .refl _ _ }, rfl⟩
  refine wp_of_returns hmoved fun _ t ht => ?_
  obtain ⟨ht, hsame⟩ := ht
  have hfields := ht.fields
  obtain ⟨_, _, _, hfields⟩ := hfields
  have hrow' : 0 ≤ t.mCursorRow ∧ t.mCursorRow < t.mRows := by
    rw [hfields]
    exact hrow
  have hcolumn' : 0 ≤ t.mCursorCol ∧ t.mCursorCol < t.mColumns := by
    rw [hsame, hfields]
    exact hcolumn
  rw [wp_bind, wp_get, wp_bind]
  refine wp_of_returns (set_drawnAt ht.toConsistent hrow' hcolumn' b.toInt) fun _ u hu => ?_
  rw [wp_modify]
  have hu' := ht.trans hu
  obtain ⟨_, _, _, hfields'⟩ := hu'.fields
  refine { hu'.toConsistent with fields := ?_, edits := hu'.edits }
  rw [hfields']
  exact ⟨_, _, _, rfl⟩

/-- The cursor is at the start of the row below, or the region scrolled. -/
structure Wrapped (s t : TerminalEmulator) : Prop extends Consistent t where
  sizes : t.mRows = s.mRows ∧ t.mColumns = s.mColumns
  margins : t.mTopMargin = s.mTopMargin ∧ t.mBottomMargin = s.mBottomMargin
  column : t.mCursorCol = 0
  below : s.mCursorRow + 1 < s.mBottomMargin → t.mCursorRow = s.mCursorRow + 1 ∧
    t.mScrollCounter = s.mScrollCounter ∧
      EditsRows (fun y => (y : Int) = s.mCursorRow) s.buffer t.buffer
  scrolled : ¬ s.mCursorRow + 1 < s.mBottomMargin → t.mCursorRow = s.mCursorRow ∧
    ∀ y : Nat, (y : Int) ≠ s.mCursorRow → ¬ s.regionView.Inside y →
      t.buffer.screen[y]? = s.buffer.screen[y]?

theorem wrapCursor_wrapped (hs : Placed s)
    (hwraps : s.mCursorCol = s.mColumns - 1 ∧ s.mAboutToAutoWrap) :
    returns wrapCursor (fun _ t => Wrapped s t) s := by
  have hcolumn : 0 < s.mColumns := by
    have hcolumn := hs.column
    omega
  unfold wrapCursor returns
  rw [wp_bind, wp_get, if_pos hwraps, wp_bind]
  refine wp_of_returns (setLineWrap_drawnAt hs.toConsistent hs.row) fun _ s₁ h₁ => ?_
  rw [wp_bind, wp_modify]
  have hedits := h₁.edits
  obtain ⟨screen, _, _, hfields⟩ := h₁.fields
  rw [wp_ite]
  refine ⟨fun hbelow => ?_, fun hlast => ?_⟩
  · rw [wp_modify]
    have hcons : Consistent { s₁ with mCursorCol := 0, mCursorRow := s₁.mCursorRow + 1 } :=
      { h₁ with }
    refine { hcons with
      sizes := ?_, margins := ?_, column := rfl, below := fun _ => ⟨?_, ?_, hedits⟩
      scrolled := fun h => absurd hbelow h }
    all_goals rw [hfields]
    · exact ⟨rfl, rfl⟩
    · exact ⟨rfl, rfl⟩
  · have hplaced : Placed { s₁ with mCursorCol := 0 } := by
      refine { (show Consistent { s₁ with mCursorCol := 0 } from { h₁ with }) with
        row := ?_, column := ?_, margins := ?_ }
      · rw [hfields]
        exact hs.row
      · rw [hfields]
        exact ⟨Int.le_refl _, hcolumn⟩
      · rw [hfields]
        exact hs.margins
    refine wp_of_returns (scroll_draws hplaced) fun _ t ht => ?_
    have hcons : Consistent t := by
      refine ht.consistent { hplaced with } rfl ?_
      rw [ScrollBuffer.length_cells, ScrollBuffer.length_cells]
      have hmargins := hplaced.margins
      have hrows := hplaced.rows
      refine length_screen_scroll (by omega) ?_
      rw [length_buffer]
      omega
    obtain ⟨_, hfields'⟩ := ht.fields
    have hcursor : t.mCursorRow = s.mCursorRow := by
      rw [hfields', hfields]
    refine { hcons with
      sizes := ?_, margins := ?_, column := ?_, below := fun h => absurd h hlast
      scrolled := fun _ => ⟨hcursor, fun y hne hout => ?_⟩ }
    · rw [hfields', hfields]
      exact ⟨rfl, rfl⟩
    · rw [hfields', hfields]
      exact ⟨rfl, rfl⟩
    · rw [hfields']
    · rw [← hedits.kept y hne, ht.buffer]
      refine scroll_rows hplaced ?_ _
      rw [hfields]
      exact hout

theorem emit_locks (hs : Placed s) (hwraps : s.mCursorCol = s.mColumns - 1 ∧ s.mAboutToAutoWrap)
    (b : JByte) : wp (emit b)
      (fun _ t => RegionView.LocksAhead .wrap s.regionView t.regionView) (fun _ _ => False) s := by
  have hcolumn : 0 < s.mColumns := by
    have hcolumn := hs.column
    omega
  obtain ⟨htop, hlt, hle⟩ := hs.margins
  obtain ⟨hrow, hrow'⟩ := hs.row
  unfold emit
  rw [wp_bind]
  refine wp_of_returns (wrapCursor_wrapped hs hwraps) fun _ t ht => ?_
  have hcolumn' : 0 ≤ t.mCursorCol ∧ t.mCursorCol < t.mColumns := by
    rw [ht.column, ht.sizes.2]
    exact ⟨Int.le_refl _, hcolumn⟩
  by_cases hbelow : s.mCursorRow + 1 < s.mBottomMargin
  · obtain ⟨hcursor, hscrolls, hedits⟩ := ht.below hbelow
    have hrow'' : 0 ≤ t.mCursorRow ∧ t.mCursorRow < t.mRows := by
      rw [ht.sizes.1]
      omega
    refine wp_of_returns (drawChar_drawnAt ht.toConsistent hrow'' hcolumn' b) fun _ u hu => ?_
    obtain ⟨_, _, _, hfields⟩ := hu.fields
    have hkept (y : Nat) (hne : (y : Int) ≠ s.mCursorRow) (hne' : (y : Int) ≠ s.mCursorRow + 1) :
        u.regionView.rows[y]? = s.regionView.rows[y]? := by
      rw [← hcursor] at hne'
      exact (hu.edits.kept y hne').trans (hedits.kept y hne)
    by_cases hin : s.regionView.Inside s.mCursorRow
    · refine RegionView.locksAhead_of_inside hin fun y hy => ?_
      have hout : ¬ (s.mTopMargin ≤ y ∧ (y : Int) < s.mBottomMargin) := hy
      have hinside : s.mTopMargin ≤ s.mCursorRow := hin.1
      exact hkept y (by omega) (by omega)
    · have hout : ¬ (s.mTopMargin ≤ s.mCursorRow ∧ s.mCursorRow < s.mBottomMargin) := hin
      have habove : s.mCursorRow < s.mTopMargin := by omega
      refine RegionView.locksAhead_wrap habove ?_ hkept
      have hcursor' : u.regionView.cursor = s.mCursorRow + 1 := by
        rw [hfields]
        exact hcursor
      have hscrolls' : u.regionView.scrolls = s.mScrollCounter := by
        rw [hfields]
        exact hscrolls
      have hlength : (s.regionView.rows.length : Int) = s.mRows := by
        rw [← hs.rows, ← length_buffer]
        rfl
      have hfrom : s.regionView.cursor = s.mCursorRow := rfl
      refine ⟨hu.edits.history.trans hedits.history, hscrolls', ?_, ?_, ?_⟩
      · rw [hcursor', hfrom]
        omega
      · rw [hcursor', hfrom]
      · rw [hcursor', hlength]
        omega
  · obtain ⟨hcursor, hkept⟩ := ht.scrolled hbelow
    have hrow'' : 0 ≤ t.mCursorRow ∧ t.mCursorRow < t.mRows := by
      rw [ht.sizes.1, hcursor]
      exact ⟨hrow, hrow'⟩
    refine wp_of_returns (drawChar_drawnAt ht.toConsistent hrow'' hcolumn' b) fun _ u hu => ?_
    by_cases hin : s.regionView.Inside s.mCursorRow
    · refine RegionView.locksAhead_of_inside hin fun y hy => ?_
      have hne : (y : Int) ≠ s.mCursorRow := by
        intro heq
        rw [heq] at hy
        exact hy hin
      have hne' : ¬ (y : Int) = t.mCursorRow := by
        rw [hcursor]
        exact hne
      exact (hu.edits.kept y hne').trans (hkept y hne hy)
    · refine RegionView.locksAhead_of_not hin fun hahead => ?_
      have habove : s.mCursorRow < s.mTopMargin := hahead
      omega

theorem RowOp.locks (hs : Placed s) {op : RowOp} (hop : op.Applies s) :
    RegionView.LocksAhead op.move s.regionView (after op.body s).regionView := by
  have hbody : returns op.body
      (fun _ t => RegionView.LocksAhead op.move s.regionView t.regionView) s := by
    cases op with
    | lineFeed => exact doLinefeed_locks hs
    | index => exact doLinefeed_locks hs
    | nextLine => exact nextLine_locks hs
    | reverseIndex => exact reverseIndex_locks hs
    | print b => exact emit_locks hs hop b
  obtain ⟨_, t, hrun, ht⟩ := returns_iff.mp hbody
  unfold after
  rw [hrun]
  exact ht

end Kbox.Session.TerminalEmulator
