import Kbox.Emulatorview.DrawText
import Kbox.Emulatorview.Palette
import Kbox.Emulatorview.RowReading
import Kbox.Emulatorview.SamplePlatform

/-!
# Drawing a row

`drawText` reads the text and the styles of a row and hands them to its loop.
What it draws covers the row exactly when the loop covers the text, whatever
`tmpLine` holds behind it.
-/

namespace Kbox.Emulatorview

open Kbox.Framework

namespace TranscriptScreen

variable [Platform] {s : TranscriptScreen} {row cx selx1 selx2 : Int}

/-- The calls of `drawTextRun` for the text of a row, if it has any, tile its columns and
its text. -/
def CoversRow (s : TranscriptScreen) (row cx selx1 selx2 : Int) : Prop :=
  ∀ line, s.mData.HasLine row line → ∃ text color tail runs t,
    line.HoldsText text ∧ s.mData.HasColor row color ∧
    drawText row cx selx1 selx2 s = .ok (.text (text ++ tail) runs) t ∧
    Tiles s.mColumns text.length color (cursorAt cx selx1 selx2) 0 0 runs

/-- The text of a row, if it has any, measures its columns out, and the first column is
not taken for the sentinel. -/
def FitsRow (s : TranscriptScreen) (row cx selx1 selx2 : Int) : Prop :=
  ∀ line, s.mData.HasLine row line → ∃ text color,
    line.HoldsText text ∧ s.mData.HasColor row color ∧
    Fits s.mColumns color (cursorAt cx selx1 selx2) 0 text ∧
    Begins color (cursorAt cx selx1 selx2)

omit [Platform] in
/-- A call on `mData` that returns. -/
theorem onData_of {α : Type} {x : TranscriptM α} {a : α} {data : UnicodeTranscript}
    (h : x s.mData = .ok a data) : onData x s = .ok a { s with mData := data } := by
  simp only [onData, onField, h]

/-- What `drawText` makes of a row that can be read. -/
theorem drawText_of (cx selx1 selx2 : Int) {line : Line} {text : List JChar}
    {color : StyleRow} (hline : s.mData.HasLine row line) (htext : line.HoldsText text)
    (hcolor : s.mData.HasColor row color) :
    ∃ tail t, drawText row cx selx1 selx2 s =
      match drawLine s.mColumns (text ++ tail) color (cursorAt cx selx1 selx2) with
      | .ok runs => .ok (.text (text ++ tail) runs) t
      | .error e => .error e t := by
  obtain ⟨l, data, hread, ⟨tail, rfl⟩, tmp, rfl⟩ :=
    returns_iff.mp (UnicodeTranscript.getLine_returns hline htext)
  have hcolor' : UnicodeTranscript.HasColor { s.mData with tmpLine := tmp } row color :=
    ⟨hcolor.range, hcolor.slot⟩
  let t : TranscriptScreen := { s with mData := { s.mData with tmpLine := tmp } }
  have htexts : onData (UnicodeTranscript.getLine row 0 s.mData.mColumns) s =
      .ok (some (text ++ tail)) t := onData_of hread
  have hstyles : onData (UnicodeTranscript.getLineColor row 0 s.mData.mColumns) t =
      .ok (some color) t := onData_of (UnicodeTranscript.getLineColor_of hcolor')
  have hrange := hline.range
  unfold UnicodeTranscript.InRange at hrange
  refine ⟨tail, t, ?_⟩
  unfold drawText
  simp only [bind, EStateM.bind, get_apply]
  rw [if_neg (by unfold getActiveTranscriptRows; omega)]
  simp only [EStateM.bind, htexts, hstyles]
  cases drawLine s.mColumns (text ++ tail) color (cursorAt cx selx1 selx2) with
  | ok runs => rfl
  | error e => rfl

theorem coversRow_iff (hpos : 0 < s.mColumns) :
    s.CoversRow row cx selx1 selx2 ↔ s.FitsRow row cx selx1 selx2 := by
  have hpos' : 0 < (s.mColumns : Int) := by omega
  constructor
  · intro hcovers line hline
    obtain ⟨text, color, tail, runs, t, htext, hcolor, hdraw, htiles⟩ := hcovers line hline
    refine ⟨text, color, htext, hcolor, ?_⟩
    obtain ⟨tail', t', hdraw'⟩ := drawText_of cx selx1 selx2 hline htext hcolor
    rw [hdraw] at hdraw'
    split at hdraw'
    · next runs' hrun =>
        have hsame := (EStateM.Result.ok.inj hdraw').1
        injection hsame with htail hruns
        subst hruns
        exact (drawLine_tiles_iff hpos' tail').mp ⟨runs, hrun, htiles⟩
    · cases hdraw'
  · intro hfits line hline
    obtain ⟨text, color, htext, hcolor, hfits, hbegins⟩ := hfits line hline
    obtain ⟨tail, t, hdraw⟩ := drawText_of cx selx1 selx2 hline htext hcolor
    obtain ⟨runs, hrun, htiles⟩ := (drawLine_tiles_iff hpos' tail).mpr ⟨hfits, hbegins⟩
    rw [hrun] at hdraw
    exact ⟨text, color, tail, runs, t, htext, hcolor, hdraw, htiles⟩

end TranscriptScreen

namespace TerminalEmulator

theorem staysIn_any (call : Call) (s : TerminalEmulator) : call.StaysIn Palette.any s := by
  cases call with
  | byte b => exact fun _ _ _ _ _ => trivial
  | _ => trivial

variable [Platform]

/-- A screen never loses its last column. -/
theorem mColumns_pos {columns totalRows rows : Nat} {s : TerminalEmulator}
    (hcolumns : 0 < columns) (hcreate : create columns totalRows rows = .ok s)
    (calls : List Call) : 0 < (run calls s).mScreen.mColumns := by
  have hmeets : RunMeets (Call.StaysIn Palette.any) calls s := by
    clear hcreate
    induction calls generalizing s with
    | nil => trivial
    | cons call calls ih => exact ⟨staysIn_any call s, ih⟩
  obtain ⟨_, _, hpos, hscreen⟩ := (painted_run (painted_create hcolumns hcreate) hmeets).screen
  rw [hscreen.width]
  exact hpos

/-- **Drawing covers a row** of a reachable screen exactly when the glyphs of its text
measure its columns out and its first column does not look like the sentinel. -/
theorem drawText_covers_iff {columns totalRows rows : Nat} {s : TerminalEmulator}
    (hcolumns : 0 < columns) (hcreate : create columns totalRows rows = .ok s)
    (calls : List Call) (row cx selx1 selx2 : Int) :
    (run calls s).mScreen.CoversRow row cx selx1 selx2 ↔
      (run calls s).mScreen.FitsRow row cx selx1 selx2 :=
  TranscriptScreen.coversRow_iff (mColumns_pos hcolumns hcreate calls)

omit [Platform] in
theorem drawText_covers_iff_two_columns : let _ := samplePlatform
    ∃ s, create 2 4 2 = .ok s ∧ ((run [.byte 0x41] s).mScreen.CoversRow 0 0 (-1) (-1) ↔
      (run [.byte 0x41] s).mScreen.FitsRow 0 0 (-1) (-1)) := by
  let _ := samplePlatform
  have hok : (create 2 4 2).toBool = true := by decide +kernel
  cases hcreate : create 2 4 2 with
  | error e =>
      rw [hcreate] at hok
      cases hok
  | ok s => exact ⟨s, hcreate, drawText_covers_iff (by decide) hcreate _ _ _ _ _⟩

/-- `ESC [ 30 ; 40 m A`, in the style that the loop of `drawText` starts with. -/
def blackOnBlack : List Call :=
  [0x1b, 0x5b, 0x33, 0x30, 0x3b, 0x34, 0x30, 0x6d, 0x41].map .byte

omit [Platform] in
theorem black_not_covered : let _ := samplePlatform
    ∃ s, create 2 4 2 = .ok s ∧ ¬ (run blackOnBlack s).mScreen.CoversRow 0 (-1) (-1) (-1) := by
  let _ := samplePlatform
  have hcell : (create 2 4 2).map (fun s =>
      let data := (run blackOnBlack s).mScreen.mData
      ((run blackOnBlack s).mScreen.mColumns, data.mScreenRows,
        arrayGet (Exn.arrayIndexOutOfBounds .mLines) data.mLines (data.internalRow 0),
        (arrayGet (Exn.arrayIndexOutOfBounds .mColor) data.mColor
          (data.internalRow 0)).toOption.join.bind fun color => (color.get 0).toOption)) =
      .ok (2, 2, .ok (some (.basic [65, 32])), some 0) := by decide +kernel
  cases hcreate : create 2 4 2 with
  | error e =>
      rw [hcreate] at hcell
      cases hcell
  | ok s =>
      rw [hcreate] at hcell
      obtain ⟨hcolumns, hrows, htext, hstyle⟩ : _ ∧ _ ∧ _ ∧ _ := by
        simpa only [Except.map, Except.ok.injEq, Prod.mk.injEq] using hcell
      have hline : (run blackOnBlack s).mScreen.mData.HasLine 0 (.basic [65, 32]) :=
        ⟨⟨by omega, by omega⟩, htext⟩
      refine ⟨s, hcreate, fun hcovers => ?_⟩
      have hfits := (TranscriptScreen.coversRow_iff (by omega)).mp hcovers
      obtain ⟨_, color, _, hcolor, _, hbegins⟩ := hfits _ hline
      rw [hcolor.slot] at hstyle
      have hzero : (color.get 0).toOption = some 0 := hstyle
      cases hget : color.get 0 with
      | error e =>
          rw [hget] at hzero
          cases hzero
      | ok style =>
          rw [hget] at hzero
          cases hzero
          exact hbegins ⟨hget, rfl⟩

end TerminalEmulator

end Kbox.Emulatorview
