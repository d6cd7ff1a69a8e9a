import Kbox.Emulatorview.UnicodeTranscript

/-!
# `jackpal.androidterm.emulatorview.TranscriptScreen`

A thin layer over `UnicodeTranscript`, which it forwards its writing methods to.
Two methods walk over a row's text: `drawText`, whose calls of
`renderer.drawTextRun` are collected in a list, and
`internalGetTranscriptText`.
-/

namespace Kbox.Emulatorview

open Kbox.Framework

structure TranscriptScreen where
  mColumns : Nat
  mTotalRows : Nat
  mScreenRows : Nat
  mData : UnicodeTranscript
deriving DecidableEq, Repr

/-- A method of the screen. -/
abbrev ScreenM (α : Type) : Type := EStateM Exn TranscriptScreen α

namespace TranscriptScreen

/-- A call on `mData`. -/
def onData {α : Type} (x : TranscriptM α) : ScreenM α :=
  onField mData (fun data s => { s with mData := data }) x

def setLineWrap (row : Int) : ScreenM Unit := onData (UnicodeTranscript.setLineWrap row)

def scroll (topMargin bottomMargin : Int) (style : Style) : ScreenM Unit :=
  onData (UnicodeTranscript.scroll topMargin bottomMargin style)

def getActiveRows (s : TranscriptScreen) : Nat := s.mData.getActiveRows

def getActiveTranscriptRows (s : TranscriptScreen) : Nat := s.mData.mActiveTranscriptRows

def fastResize (columns rows cursorRow : Int) : ScreenM (Bool × Int) := do
  let (done, cursorRow) ← onData (UnicodeTranscript.resize columns rows cursorRow)
  when done (modify fun s => { s with mColumns := columns.toNat, mScreenRows := rows.toNat })
  return (done, cursorRow)

variable [Platform]

def set (x y codePoint : Int) (style : Style) : ScreenM Unit :=
  onData (UnicodeTranscript.setCharStyle x y codePoint style)

def blockCopy (sx sy w h dx dy : Int) : ScreenM Unit :=
  onData (UnicodeTranscript.blockCopy sx sy w h dx dy)

def blockSet (sx sy w h val : Int) (style : Style) : ScreenM Unit :=
  onData (UnicodeTranscript.blockSet sx sy w h val style)

def init (columns totalRows screenRows : Nat) (style : Style) : ScreenM Unit := do
  MonadStateOf.set (⟨columns, totalRows, screenRows,
    UnicodeTranscript.create columns totalRows screenRows style⟩ : TranscriptScreen)
  onData (UnicodeTranscript.blockSet 0 0 columns screenRows 32 style)

/-- `new TranscriptScreen(columns, totalRows, screenRows, scheme)` -/
def create (columns totalRows screenRows : Nat) : Except Exn TranscriptScreen :=
  construct (init columns totalRows screenRows TextStyle.kNormalTextStyle)
    ⟨0, 0, 0, UnicodeTranscript.create 0 0 0 0⟩

def resize (columns rows : Nat) (style : Style) : ScreenM Unit := do
  init columns (← get).mTotalRows rows style

/-! ## Drawing -/

/-- `renderer.drawTextRun(canvas, x, y, lineOffset, runWidth, text, index, count, cursor,
textStyle)`, with the part of `text` it is about left in `text`. -/
structure TextRun where
  lineOffset : Int
  runWidth : Int
  index : Int
  count : Int
  cursor : Bool
  textStyle : Style
deriving DecidableEq, Repr

/-- The locals of the loop of `drawText`. -/
structure RunState where
  lastStyle : Style
  lastCursorStyle : Bool
  runWidth : Int
  lastRunStart : Int
  lastRunStartIndex : Int
  forceFlushRun : Bool
deriving DecidableEq, Repr

/-- The run that ends in front of `index`, if one was begun. -/
def RunState.flush (r : RunState) (index : Int) : List TextRun :=
  if r.lastRunStart ≥ 0 then
    [⟨r.lastRunStart, r.runWidth, r.lastRunStartIndex, index - r.lastRunStartIndex,
      r.lastCursorStyle, r.lastStyle⟩]
  else []

/-- `cx == column || (column >= selx1 && column <= selx2)` -/
def cursorAt (cx selx1 selx2 column : Int) : Bool :=
  cx = column ∨ (column ≥ selx1 ∧ column ≤ selx2)

/-- The condition for a new run. -/
def RunState.starts (r : RunState) (style : Style) (cursorStyle : Bool) (width : Int) : Bool :=
  style ≠ r.lastStyle ∨ cursorStyle ≠ r.lastCursorStyle ∨ (width > 0 ∧ r.forceFlushRun)

/-- A character of the given width joins the run.  We cannot draw two or more East Asian
wide characters in the same run. -/
def RunState.grow (r : RunState) (width : Int) : RunState :=
  { r with
    runWidth := r.runWidth + width
    forceFlushRun := width > 1 ∨ r.forceFlushRun }

/-- The loop of `drawText`.  Every pass moves `index` forward, and throws behind the end
of `line`, so `line.length + 1` passes are enough. -/
def drawLoop (columns : Int) (line : List JChar) (color : StyleRow) (cursor : Int → Bool) :
    Nat → RunState → Int → Int → Except Exn (List TextRun)
  | 0, _, _, _ => .error (.arrayIndexOutOfBounds .mText)
  | fuel + 1, r, column, index =>
      if column < columns then do
        let style ← color.get column
        let c ← arrayGet (.arrayIndexOutOfBounds .mText) line index
        let incr : Int := if isHighSurrogate c then 2 else 1
        let width ← charWidthAt (.arrayIndexOutOfBounds .mText) line index
        let cursorStyle := cursor column
        if r.starts style cursorStyle width then
          let started : RunState := ⟨style, cursorStyle, 0, column, index, false⟩
          let runs ← drawLoop columns line color cursor fuel (started.grow width)
            (column + width) (index + incr)
          return r.flush index ++ runs
        else
          drawLoop columns line color cursor fuel (r.grow width) (column + width) (index + incr)
      else .ok (r.flush index)

/-- The runs of a row that has text. -/
def drawLine (columns : Int) (line : List JChar) (color : StyleRow) (cursor : Int → Bool) :
    Except Exn (List TextRun) :=
  drawLoop columns line color cursor (line.length + 1) ⟨0, false, 0, -1, -1, false⟩ 0 0

/-- What `drawText` draws, apart from the text of an input method. -/
inductive Drawing where
  | nothing
  /-- A row without text: blanks under the selection or the cursor. -/
  | blank (run : TextRun)
  /-- The runs of the row, and the array that they index. -/
  | text (line : List JChar) (runs : List TextRun)
deriving DecidableEq, Repr

/-- `drawText(row, canvas, x, y, renderer, cx, selx1, selx2, imeText)` up to `imeText`. -/
def drawText (row cx selx1 selx2 : Int) : ScreenM Drawing := do
  let s ← get
  -- Out-of-bounds rows are blank.
  if row < -s.getActiveTranscriptRows ∨ row > (s.mData.mScreenRows : Int) - 1 then
    return .nothing
  let line ← onData (UnicodeTranscript.getLine row 0 s.mData.mColumns)
  let color ← onData (UnicodeTranscript.getLineColor row 0 s.mData.mColumns)
  match line with
  | none =>
      if selx1 ≠ selx2 then
        return .blank ⟨selx1, selx2 - selx1, 0, 1, true, s.mData.mDefaultStyle⟩
      else if cx ≠ -1 then
        return .blank ⟨cx, 1, 0, 1, true, s.mData.mDefaultStyle⟩
      else return .nothing
  | some line =>
      match color with
      | none => throw .nullPointer
      | some color =>
          return .text line (← checked (drawLine s.mColumns line color (cursorAt cx selx1 selx2)))

/-! ## Extracting text -/

/-- Whether the char at a column is more than a blank of the default style. -/
def isPrinting (color : Option StyleRow) (defaultColor : Style) (c : JChar) (column : Int) :
    Except Exn Bool :=
  if c ≠ 32 then .ok true
  else match color with
    | none => .ok false
    | some color => do return decide ((← color.get column) ≠ defaultColor)

/-- The column behind the char at `i`, which a low surrogate does not move. -/
def columnBehind (line : List JChar) (i : Int) (c : JChar) (column : Int) : Except Exn Int :=
  if isLowSurrogate c then .ok column
  else do return column + (← charWidthAt (.arrayIndexOutOfBounds .tmpLine) line i)

/-- The first loop of `internalGetTranscriptText` over a row's chars, from index `i` on:
where it stops, and the index of the last printing char. -/
def scanLine (width : Int) (color : Option StyleRow) (defaultColor : Style)
    (line : List JChar) : Nat → Int → Int → Int → Except Exn (Int × Int)
  | 0, i, _, last => .ok (i, last)
  | fuel + 1, i, column, last =>
      if i < line.length ∧ column < width then do
        let c ← arrayGet (.arrayIndexOutOfBounds .tmpLine) line i
        if c = 0 then return (i, last)
        let printing ← isPrinting color defaultColor c column
        let column ← columnBehind line i c column
        scanLine width color defaultColor line fuel (i + 1) column (if printing then i else last)
      else .ok (i, last)

/-- The style of a column, as the loops that append to `colors` see it. -/
def columnStyle (color : Option StyleRow) (defaultColor : Style) (column : Int) :
    Except Exn Style :=
  match color with
  | none => .ok defaultColor
  | some color => color.get column

/-- The column behind the char at `j`; without styles, columns are not counted. -/
def styleColumnBehind (color : Option StyleRow) (line : List JChar) (j column : Int) :
    Except Exn Int :=
  match color with
  | none => .ok column
  | some _ => do return column + (← charWidthAt (.arrayIndexOutOfBounds .tmpLine) line j)

/-- The loops that append to `colors`, from index `j` to `last`. -/
def scanColors (color : Option StyleRow) (defaultColor : Style) (line : List JChar)
    (last : Int) : Nat → Int → Int → Except Exn (List Style)
  | 0, _, _ => .ok []
  | fuel + 1, j, column =>
      if j ≤ last then do
        let style ← columnStyle color defaultColor column
        let column ← styleColumnBehind color line j column
        let c ← arrayGet (.arrayIndexOutOfBounds .tmpLine) line j
        let styles ← scanColors color defaultColor line last fuel
          (if isHighSurrogate c then j + 2 else j + 1) column
        return style :: styles
      else .ok []

/-- What a row adds to the text, and to the colours. -/
structure RowText where
  text : List JChar
  colors : List Style
deriving DecidableEq, Repr

/-- The row's chars up to the last printing one. -/
def lineText (width : Int) (color : Option StyleRow) (defaultColor : Style) (wrapped : Bool)
    (line : List JChar) : Except Exn RowText := do
  let (i, last) ← scanLine width color defaultColor line line.length 0 0 (-1)
  -- If the line was wrapped, we shouldn't lose trailing space
  let last := if wrapped ∧ last > -1 then i - 1 else last
  let colors ← scanColors color defaultColor line last line.length 0 0
  return ⟨line.take (last + 1).toNat, colors⟩

/-- One row of the loop of `internalGetTranscriptText`. -/
def rowText (withColors : Bool) (selX1 selY1 selX2 selY2 row : Int) : ScreenM RowText := do
  let s ← get
  let columns : Int := s.mColumns
  let x1 := if row = selY1 then selX1 else 0
  let x2 := if row = selY2 then min (selX2 + 1) columns else columns
  let line ← onData (UnicodeTranscript.getLine row x1 x2)
  let color ← (if withColors then onData (UnicodeTranscript.getLineColor row x1 x2)
    else pure none)
  let wrapped ← onData (UnicodeTranscript.getLineWrap row)
  let newline : RowText :=
    if ¬ wrapped ∧ row < selY2 ∧ row < (s.mScreenRows : Int) - 1 then ⟨[10], [0]⟩ else ⟨[], []⟩
  match line with
  | none => return newline
  | some line =>
      let r ← checked (lineText (x2 - x1) color s.mData.mDefaultStyle
        (wrapped ∧ x2 = columns) line)
      return ⟨r.text ++ newline.text, r.colors ++ newline.colors⟩

/-- The rows of the loop of `internalGetTranscriptText`, from `row` on. -/
def rowTexts (withColors : Bool) (selX1 selY1 selX2 selY2 : Int) :
    Nat → Int → ScreenM RowText
  | 0, _ => pure ⟨[], []⟩
  | n + 1, row => do
      let r ← rowText withColors selX1 selY1 selX2 selY2 row
      let rest ← rowTexts withColors selX1 selY1 selX2 selY2 n (row + 1)
      return ⟨r.text ++ rest.text, r.colors ++ rest.colors⟩

/-- `internalGetTranscriptText`; the colours are those of a call that passes `colors`. -/
def internalGetTranscriptText (withColors : Bool) (selX1 selY1 selX2 selY2 : Int) :
    ScreenM RowText := do
  let s ← get
  let selY1 := max selY1 (-s.getActiveTranscriptRows)
  let selY2 := if selY2 ≥ s.mScreenRows then (s.mScreenRows : Int) - 1 else selY2
  rowTexts withColors selX1 selY1 selX2 selY2 (selY2 + 1 - selY1).toNat selY1

def getTranscriptText (withColors : Bool) : ScreenM RowText := do
  let s ← get
  internalGetTranscriptText withColors 0 (-s.getActiveTranscriptRows) s.mColumns s.mScreenRows

def getSelectedText (withColors : Bool) (selX1 selY1 selX2 selY2 : Int) : ScreenM RowText :=
  internalGetTranscriptText withColors selX1 selY1 selX2 selY2

end TranscriptScreen

end Kbox.Emulatorview
