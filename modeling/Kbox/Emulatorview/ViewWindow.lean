import Kbox.Framework.Runs
import Mathlib.Tactic.SplitIfs

/-!
# The window of `EmulatorView` and its selection

The view shows `mRows` rows of the transcript from `mTopRow` on, which is 0 at the bottom.
Output goes on while the user scrolls and selects: the emulator counts how often it has
scrolled, and the view moves its selection by that count when it is told of an update.
-/

namespace Kbox.Emulatorview

open Kbox.Framework
open Relation (ReflTransGen)

/-- The rows and columns of an `EmulatorView`, with what it asks of its emulator. -/
structure ViewWindow where
  mTopRow : Int
  mLeftColumn : Int
  mRows : Int
  mColumns : Int
  mVisibleColumns : Int
  mIsSelectingText : Bool
  mSelXAnchor : Int
  mSelYAnchor : Int
  mSelX1 : Int
  mSelY1 : Int
  mSelX2 : Int
  mSelY2 : Int
  /-- Where `mScroller` may go to. -/
  mScrollerMin : Int
  /-- `mTranscriptScreen.getActiveTranscriptRows()` -/
  activeTranscriptRows : Int
  /-- `mEmulator.getScrollCounter()` -/
  scrollCounter : Int

namespace ViewWindow

def create (mRows mColumns mVisibleColumns : Int) : ViewWindow where
  mTopRow := 0
  mLeftColumn := 0
  mRows := mRows
  mColumns := mColumns
  mVisibleColumns := mVisibleColumns
  mIsSelectingText := false
  mSelXAnchor := -1
  mSelYAnchor := -1
  mSelX1 := -1
  mSelY1 := -1
  mSelX2 := -1
  mSelY2 := -1
  mScrollerMin := 0
  activeTranscriptRows := 0
  scrollCounter := 0

/-- `scroll` of the emulator; a row may go to the transcript. -/
def scroll (activeTranscriptRows : Int) (v : ViewWindow) : ViewWindow :=
  { v with scrollCounter := v.scrollCounter + 1, activeTranscriptRows := activeTranscriptRows }

def shiftSelection (v : ViewWindow) : ViewWindow :=
  if v.mIsSelectingText then
    { v with
      mSelY1 := v.mSelY1 - v.scrollCounter
      mSelY2 := v.mSelY2 - v.scrollCounter
      mSelYAnchor := v.mSelYAnchor - v.scrollCounter }
  else v

/-- The column at the left, so that the cursor at `cx` is visible. -/
def leftColumnFor (cx : Int) (v : ViewWindow) : Int :=
  if v.mVisibleColumns > 0 then
    if cx - v.mLeftColumn < 0 then cx
    else if cx - v.mLeftColumn ≥ v.mVisibleColumns then cx - v.mVisibleColumns + 1
    else v.mLeftColumn
  else v.mLeftColumn

def ensureCursorVisible (cx : Int) (v : ViewWindow) : ViewWindow :=
  { v with mTopRow := 0, mLeftColumn := v.leftColumnFor cx }

/-- `mUpdateNotify.onUpdate`, with the cursor in column `cx`. -/
def onUpdate (cx : Int) (v : ViewWindow) : ViewWindow :=
  { v.shiftSelection with scrollCounter := 0 }.ensureCursorVisible cx

/-- The row `delta` rows from the top one, as far as there are rows. -/
def clampedRow (delta : Int) (v : ViewWindow) : Int :=
  min 0 (max (-v.activeTranscriptRows) (v.mTopRow + delta))

def page (delta : Int) (v : ViewWindow) : ViewWindow :=
  { v with mTopRow := v.clampedRow (v.mRows * delta) }

/-- `onScroll`, by whole rows. -/
def onScroll (deltaRows : Int) (v : ViewWindow) : ViewWindow :=
  { v with mTopRow := v.clampedRow deltaRows }

def pageHorizontal (deltaColumns : Int) (v : ViewWindow) : ViewWindow :=
  { v with
    mLeftColumn := max 0 (min (v.mLeftColumn + deltaColumns) (v.mColumns - v.mVisibleColumns)) }

def onJumpTapDown (v : ViewWindow) : ViewWindow := { v with mTopRow := 0 }

def onJumpTapUp (v : ViewWindow) : ViewWindow := { v with mTopRow := -v.activeTranscriptRows }

def onFling (v : ViewWindow) : ViewWindow := { v with mScrollerMin := -v.activeTranscriptRows }

/-- A step of `mFlingRunner`. -/
def fling (currY : Int) (v : ViewWindow) : ViewWindow := { v with mTopRow := currY }

/-- `updateSize`; the session may start its transcript anew. -/
def updateSize (mRows mColumns mVisibleColumns activeTranscriptRows : Int) (v : ViewWindow) :
    ViewWindow :=
  { v with
    mRows := mRows
    mColumns := mColumns
    mVisibleColumns := mVisibleColumns
    activeTranscriptRows := activeTranscriptRows
    mTopRow := 0
    mLeftColumn := 0 }

def toggleSelectingText (v : ViewWindow) : ViewWindow :=
  if v.mIsSelectingText then
    { v with mIsSelectingText := false, mSelX1 := -1, mSelY1 := -1, mSelX2 := -1, mSelY2 := -1 }
  else { v with mIsSelectingText := true }

/-- The row of a touch `row` rows below the top. -/
def touchRow (row : Int) (v : ViewWindow) : Int := max 0 (row + v.mTopRow)

/-- `ACTION_DOWN` while text is selected. -/
def touchDown (cx row : Int) (v : ViewWindow) : ViewWindow :=
  { v with
    mSelXAnchor := cx
    mSelYAnchor := v.touchRow row
    mSelX1 := cx
    mSelY1 := v.touchRow row
    mSelX2 := cx
    mSelY2 := v.touchRow row }

/-- `ACTION_MOVE` while text is selected. -/
def touchMove (cx row : Int) (v : ViewWindow) : ViewWindow :=
  { v with
    mSelX1 := min v.mSelXAnchor cx
    mSelY1 := min v.mSelYAnchor (v.touchRow row)
    mSelX2 := max v.mSelXAnchor cx
    mSelY2 := max v.mSelYAnchor (v.touchRow row) }

/-- `ACTION_UP` while text is selected, behind the copy. -/
def touchUp (cx row : Int) (v : ViewWindow) : ViewWindow := (v.touchMove cx row).toggleSelectingText

end ViewWindow

inductive ViewEvent where
  | scroll (activeTranscriptRows : Int)
  | onUpdate (cx : Int)
  | page (delta : Int)
  | onScroll (deltaRows : Int)
  | pageHorizontal (deltaColumns : Int)
  | onJumpTapDown
  | onJumpTapUp
  | onFling
  | fling (currY : Int)
  | updateSize (mRows mColumns mVisibleColumns activeTranscriptRows : Int)
  | toggleSelectingText
  | touchDown (cx row : Int)
  | touchMove (cx row : Int)
  | touchUp (cx row : Int)

namespace ViewWindow

def perform (v : ViewWindow) : ViewEvent → ViewWindow
  | .scroll activeTranscriptRows => v.scroll activeTranscriptRows
  | .onUpdate cx => v.onUpdate cx
  | .page delta => v.page delta
  | .onScroll deltaRows => v.onScroll deltaRows
  | .pageHorizontal deltaColumns => v.pageHorizontal deltaColumns
  | .onJumpTapDown => v.onJumpTapDown
  | .onJumpTapUp => v.onJumpTapUp
  | .onFling => v.onFling
  | .fling currY => v.fling currY
  | .updateSize mRows mColumns mVisibleColumns activeTranscriptRows =>
      v.updateSize mRows mColumns mVisibleColumns activeTranscriptRows
  | .toggleSelectingText => v.toggleSelectingText
  | .touchDown cx row => v.touchDown cx row
  | .touchMove cx row => v.touchMove cx row
  | .touchUp cx row => v.touchUp cx row

/-! ## §1  The rows that are drawn -/

/-- The order events come in: rows of the transcript are not lost by output, only by a new
size; the scroller stays between the bounds it was given; touches select only while text is
selected.  What is asked is that no fling outlives a new size that takes rows away. -/
def Orderly (v : ViewWindow) : ViewEvent → Prop
  | .scroll activeTranscriptRows => v.activeTranscriptRows ≤ activeTranscriptRows
  | .fling currY => v.mScrollerMin ≤ currY ∧ currY ≤ 0 ∧ -v.activeTranscriptRows ≤ v.mScrollerMin
  | .updateSize _ _ _ activeTranscriptRows => 0 ≤ activeTranscriptRows
  | .touchDown _ _ => v.mIsSelectingText = true
  | .touchMove _ _ => v.mIsSelectingText = true
  | .touchUp _ _ => v.mIsSelectingText = true
  | _ => True

def Step (v w : ViewWindow) : Prop := ∃ e : ViewEvent, v.Orderly e ∧ v.perform e = w

/-- The rows of the window are rows of the screen or the transcript. -/
structure InTranscript (v : ViewWindow) : Prop where
  history : 0 ≤ v.activeTranscriptRows
  low : -v.activeTranscriptRows ≤ v.mTopRow
  high : v.mTopRow ≤ 0

variable {v w : ViewWindow}

theorem InTranscript.clamped (h : InTranscript v) (delta : Int) :
    InTranscript { v with mTopRow := v.clampedRow delta } := by
  have hpos := h.history
  refine ⟨hpos, ?_, ?_⟩ <;> simp only [clampedRow] <;> omega

theorem shiftSelection_rows : v.shiftSelection.activeTranscriptRows = v.activeTranscriptRows := by
  unfold shiftSelection
  split_ifs <;> rfl

theorem toggle_rows : v.toggleSelectingText.activeTranscriptRows = v.activeTranscriptRows ∧
    v.toggleSelectingText.mTopRow = v.mTopRow := by
  unfold toggleSelectingText
  split_ifs <;> exact ⟨rfl, rfl⟩

theorem InTranscript.toggle (h : InTranscript v) : InTranscript v.toggleSelectingText := by
  obtain ⟨hhistory, htop⟩ := toggle_rows (v := v)
  exact ⟨hhistory ▸ h.history, hhistory ▸ htop ▸ h.low, htop ▸ h.high⟩

theorem InTranscript.step (h : InTranscript v) (hstep : Step v w) : InTranscript w := by
  obtain ⟨e, horderly, rfl⟩ := hstep
  have hpos := h.history
  cases e with
  | scroll activeTranscriptRows =>
      have hle : v.activeTranscriptRows ≤ activeTranscriptRows := horderly
      exact ⟨Int.le_trans hpos hle, Int.le_trans (Int.neg_le_neg hle) h.low, h.high⟩
  | onUpdate cx =>
      have hhistory := shiftSelection_rows (v := v)
      have hsame : (v.onUpdate cx).activeTranscriptRows = v.activeTranscriptRows := hhistory
      refine ⟨hsame ▸ hpos, ?_, Int.le_refl 0⟩
      change -(v.onUpdate cx).activeTranscriptRows ≤ 0
      rw [hsame]
      omega
  | page delta => exact h.clamped _
  | onScroll deltaRows => exact h.clamped _
  | pageHorizontal deltaColumns => exact ⟨hpos, h.low, h.high⟩
  | onJumpTapDown => exact ⟨hpos, Int.neg_nonpos_of_nonneg hpos, Int.le_refl 0⟩
  | onJumpTapUp => exact ⟨hpos, Int.le_refl _, Int.neg_nonpos_of_nonneg hpos⟩
  | onFling => exact ⟨hpos, h.low, h.high⟩
  | fling currY =>
      obtain ⟨hmin, hmax, hrows⟩ := horderly
      exact ⟨hpos, Int.le_trans hrows hmin, hmax⟩
  | updateSize mRows mColumns mVisibleColumns activeTranscriptRows =>
      have hnew : 0 ≤ activeTranscriptRows := horderly
      exact ⟨hnew, Int.neg_nonpos_of_nonneg hnew, Int.le_refl 0⟩
  | toggleSelectingText => exact h.toggle
  | touchDown cx row => exact ⟨hpos, h.low, h.high⟩
  | touchMove cx row => exact ⟨hpos, h.low, h.high⟩
  | touchUp cx row =>
      have hmoved : InTranscript (v.touchMove cx row) := ⟨hpos, h.low, h.high⟩
      exact hmoved.toggle

/-- Along every run of output, scrolling and selecting, the rows that are drawn exist; and
whenever the view is told of an update, the cursor is among the visible columns. -/
theorem rows_of_run {mRows mColumns mVisibleColumns : Int}
    (hrun : ReflTransGen Step (create mRows mColumns mVisibleColumns) v) :
    (∀ row, v.mTopRow ≤ row → row < v.mTopRow + v.mRows →
      -v.activeTranscriptRows ≤ row ∧ row < v.mRows) ∧
    ∀ cx, 0 < v.mVisibleColumns →
      (v.onUpdate cx).mLeftColumn ≤ cx ∧ cx < (v.onUpdate cx).mLeftColumn + v.mVisibleColumns := by
  have hcreate : InTranscript (create mRows mColumns mVisibleColumns) :=
    ⟨Int.le_refl 0, Int.le_refl 0, Int.le_refl 0⟩
  have h : InTranscript v := invariant_of_step hcreate (fun _ _ ha hstep => ha.step hstep) hrun
  have hlow := h.low
  have hhigh := h.high
  refine ⟨fun row hfirst hlast => ⟨by omega, by omega⟩, fun cx hvisible => ?_⟩
  have hcolumn : (v.onUpdate cx).mLeftColumn = v.leftColumnFor cx := by
    unfold onUpdate ensureCursorVisible shiftSelection
    split_ifs <;> rfl
  rw [hcolumn]
  unfold leftColumnFor
  split_ifs <;> omega

theorem rows_of_run_sample : ∃ v : ViewWindow, v.mTopRow = -1 ∧
    ∀ row, v.mTopRow ≤ row → row < v.mTopRow + v.mRows →
      -v.activeTranscriptRows ≤ row ∧ row < v.mRows := by
  have houtput : Step (create 24 80 80) ((create 24 80 80).scroll 1) :=
    ⟨.scroll 1, show (0 : Int) ≤ 1 by decide, rfl⟩
  have hpage : Step ((create 24 80 80).scroll 1) (((create 24 80 80).scroll 1).page (-1)) :=
    ⟨.page (-1), trivial, rfl⟩
  exact ⟨_, rfl, (rows_of_run (.tail (.single houtput) hpage)).1⟩

end ViewWindow

end Kbox.Emulatorview
