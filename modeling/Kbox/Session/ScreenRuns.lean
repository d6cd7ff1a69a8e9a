import Kbox.Session.ScreenRefinement

/-!
# Runs of screen operations

Any sequence of in-range calls on a fresh screen is the same sequence of list
edits on a blank buffer: nothing throws, and every row that can be addressed
afterwards, on the screen or in the history, is the row of the buffer.
-/

namespace Kbox.Session

open Kbox.Framework

/-- The drawing calls of `TranscriptScreen`. -/
inductive ScreenOp where
  | scroll (topMargin bottomMargin foreColor backColor : Nat)
  | set (x : Nat) (y b : Int) (foreColor backColor : Nat)
  | setLineWrap (row : Int)
  | blockSet (sx sy w h : Nat) (val : Int) (foreColor backColor : Nat)
  | blockCopy (sx sy w h dx dy : Nat)
deriving DecidableEq, Repr

namespace ScreenOp

open TranscriptScreen (encode)

def run : ScreenOp → ScreenM Unit
  | scroll top bottom fore back => TranscriptScreen.scroll top bottom fore back
  | set x y b fore back => TranscriptScreen.set x y b fore back
  | setLineWrap row => TranscriptScreen.setLineWrap row
  | blockSet sx sy w h val fore back => TranscriptScreen.blockSet sx sy w h val fore back
  | blockCopy sx sy w h dx dy => TranscriptScreen.blockCopy sx sy w h dx dy

/-- The list edit the call stands for. -/
def edit (b : ScrollBuffer JChar) : ScreenOp → ScrollBuffer JChar
  | scroll top bottom fore back => b.scroll top bottom (encode 32 fore back)
  | set x y v fore back => b.set x y (encode v fore back)
  | setLineWrap row => b.setLineWrap row
  | blockSet sx sy w h val fore back => b.blockSet sx sy w h (encode val fore back)
  | blockCopy sx sy w h dx dy => b.blockCopy sx sy w h dx dy

/-- The arguments name existing rows, columns and rectangles. -/
def InRange (b : ScrollBuffer JChar) : ScreenOp → Prop
  | scroll top bottom _ _ => top < bottom ∧ bottom ≤ b.screen.length
  | set x y _ _ _ => x < b.columns ∧ -b.history.length ≤ y ∧ y < b.screen.length
  | setLineWrap row => -b.history.length ≤ row ∧ row < b.screen.length
  | blockSet sx sy w h _ _ _ => sx + w ≤ b.columns ∧ sy + h ≤ b.screen.length
  | blockCopy sx sy w h dx dy =>
      (sx + w ≤ b.columns ∧ sy + h ≤ b.screen.length) ∧
        dx + w ≤ b.columns ∧ dy + h ≤ b.screen.length

instance (b : ScrollBuffer JChar) (op : ScreenOp) : Decidable (op.InRange b) := by
  cases op <;> unfold InRange <;> infer_instance

/-- Every call of the list is in range when its turn comes. -/
def AllInRange : List ScreenOp → ScrollBuffer JChar → Prop
  | [], _ => True
  | op :: ops, b => op.InRange b ∧ AllInRange ops (op.edit b)

def runAll : List ScreenOp → ScreenM Unit
  | [] => pure ⟨⟩
  | op :: ops => do
      op.run
      runAll ops

/-- One call is one list edit. -/
theorem run_toBuffer {s : TranscriptScreen} (hw : s.WellFormed) {op : ScreenOp}
    (hop : op.InRange s.toBuffer) :
    returns op.run (fun _ t => t.WellFormed ∧ t.toBuffer = op.edit s.toBuffer) s := by
  have hscreen : s.toBuffer.screen.length = s.mScreenRows := by
    simp only [TranscriptScreen.toBuffer, List.length_map, List.length_range]
  have hhistory : s.toBuffer.history.length = s.mActiveTranscriptRows := by
    simp only [TranscriptScreen.toBuffer, List.length_map, List.length_range]
  have hcols : s.toBuffer.columns = s.mColumns := rfl
  cases op <;> simp only [InRange, hscreen, hhistory, hcols] at hop
  case scroll top bottom fore back =>
      exact TranscriptScreen.scroll_toBuffer hw fore back hop.1 hop.2
  case set x y b fore back =>
      exact TranscriptScreen.set_toBuffer hw b fore back hop.1 hop.2.1 hop.2.2
  case setLineWrap row =>
      exact TranscriptScreen.setLineWrap_toBuffer hw hop.1 hop.2
  case blockSet sx sy w h val fore back =>
      exact TranscriptScreen.blockSet_toBuffer hw val fore back hop.1 hop.2
  case blockCopy sx sy w h dx dy =>
      exact TranscriptScreen.blockCopy_toBuffer hw hop.1.1 hop.1.2 hop.2.1 hop.2.2

/-- A sequence of calls is the sequence of their edits. -/
theorem runAll_toBuffer {ops : List ScreenOp} {s : TranscriptScreen} (hw : s.WellFormed)
    (hops : AllInRange ops s.toBuffer) :
    returns (runAll ops) (fun _ t => t.WellFormed ∧
      t.toBuffer = ops.foldl edit s.toBuffer) s := by
  induction ops generalizing s with
  | nil =>
      exact (wp_pure _ _ _ _).mpr ⟨hw, rfl⟩
  | cons op ops ih =>
      obtain ⟨hop, hrest⟩ := hops
      unfold returns
      rw [runAll, wp_bind]
      refine wp_of_returns (run_toBuffer hw hop) ?_
      rintro _ t ⟨hwt, ht⟩
      rw [← ht] at hrest
      rw [List.foldl_cons, ← ht]
      exact ih hwt hrest

end ScreenOp

namespace TranscriptScreen

/-- The row with coordinate `row`, found by the screen's own `externalToInternalRow`. -/
def externalRow (row : Int) : ScreenM (Row JChar) := do
  let r ← externalToInternalRow row
  let s ← get
  return s.rowAt r.toNat

/-- The addressable rows of the screen are the rows of the buffer. -/
structure Shows (s : TranscriptScreen) (b : ScrollBuffer JChar) : Prop where
  transcript : s.mActiveTranscriptRows = b.history.length
  screen : s.mScreenRows = b.screen.length
  rows : ∀ row : Int, -b.history.length ≤ row → row < b.screen.length →
    ∃ r, b.row? row = some r ∧ externalRow row s = .ok r s

theorem shows_toBuffer {s : TranscriptScreen} (hw : WellFormed s) : s.Shows s.toBuffer := by
  have hhistory : s.toBuffer.history.length = s.mActiveTranscriptRows := by
    simp only [toBuffer, List.length_map, List.length_range]
  have hscreen : s.toBuffer.screen.length = s.mScreenRows := by
    simp only [toBuffer, List.length_map, List.length_range]
  refine ⟨hhistory.symm, hscreen.symm, fun row hlo hhi => ?_⟩
  rw [hhistory] at hlo
  rw [hscreen] at hhi
  obtain ⟨r, hr⟩ := exists_locates hlo hhi
  refine ⟨s.rowAt r, hr.row?, ?_⟩
  simp only [externalRow, bind, EStateM.bind, hr.externalToInternalRow hw, get_apply, pure, EStateM.pure, Int.toNat_natCast]

/-- Any in-range calls on a new screen return, leave it consistent, and leave it
showing what the same list edits make of a blank buffer. -/
theorem screen_refines_scrollback {columns totalRows screenRows : Nat}
    (hfits : Fits columns totalRows screenRows) (foreColor backColor : Nat)
    (ops : List ScreenOp)
    (hops : ScreenOp.AllInRange ops (ScrollBuffer.blank columns (totalRows - screenRows)
      screenRows (encode 32 foreColor backColor))) :
    ∃ s₀ s, create columns totalRows screenRows foreColor backColor = .ok s₀ ∧
      ScreenOp.runAll ops s₀ = .ok ⟨⟩ s ∧
      consistencyCheck s = .ok ⟨⟩ s ∧
      s.Shows (ops.foldl ScreenOp.edit (ScrollBuffer.blank columns (totalRows - screenRows)
        screenRows (encode 32 foreColor backColor))) := by
  obtain ⟨s₀, hcreate, hw₀, hbuf⟩ := create_toBuffer hfits foreColor backColor
  rw [← hbuf] at hops
  obtain ⟨_, s, hrun, hw, hs⟩ := returns_iff.mp (ScreenOp.runAll_toBuffer hw₀ hops)
  obtain ⟨_, _, hcheck, rfl⟩ := returns_iff.mp (consistencyCheck_returns hw)
  refine ⟨s₀, _, hcreate, hrun, hcheck, ?_⟩
  rw [← hbuf, ← hs]
  exact shows_toBuffer hw

/-- On a screen of two columns and two rows over three rows in all: the history
fills up and turns over, with a copy between overlapping rectangles on the way. -/
theorem screen_refines_scrollback_small :
    ∃ s₀ s, create 2 3 2 7 0 = .ok s₀ ∧
      ScreenOp.runAll [.set 0 0 65 7 0, .setLineWrap 0, .scroll 0 2 7 0,
        .blockCopy 0 0 1 1 1 0, .scroll 0 1 7 0] s₀ = .ok ⟨⟩ s ∧
      consistencyCheck s = .ok ⟨⟩ s ∧
      s.Shows ([.set 0 0 65 7 0, .setLineWrap 0, .scroll 0 2 7 0,
        .blockCopy 0 0 1 1 1 0, .scroll 0 1 7 0].foldl ScreenOp.edit
          (ScrollBuffer.blank 2 1 2 (encode 32 7 0))) :=
  screen_refines_scrollback ⟨by decide, by decide, by decide, by decide⟩ 7 0 _
    (by simp only [ScreenOp.AllInRange]; decide)

end TranscriptScreen

end Kbox.Session
