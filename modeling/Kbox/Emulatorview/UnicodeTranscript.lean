import Kbox.Emulatorview.FullUnicodeLine
import Kbox.Emulatorview.TextStyle

/-!
# `UnicodeTranscript`

The rows of the screen and its history in three circular arrays of `mTotalRows`
slots: text, styles and line-wrap flags.  The screen starts at slot
`mScreenFirstRow` and the history ends right before it.  A slot without text is
a blank row; text is allocated by the first `setChar`, in the basic
representation if the character allows it.

A slot holds its row by value.  Rows are objects in the source, and an object
moves from slot to slot when the screen scrolls.
-/

namespace Kbox.Emulatorview

open Kbox.Framework

/-- The text of a row: `char[]`, or a `FullUnicodeLine`. -/
inductive Line where
  | basic (text : List JChar)
  | full (line : FullUnicodeLine)
deriving DecidableEq, Repr

structure UnicodeTranscript where
  mLines : List (Option Line)
  mColor : List (Option StyleRow)
  mLineWrap : List Bool
  mTotalRows : Nat
  mScreenRows : Nat
  mColumns : Nat
  mActiveTranscriptRows : Nat
  mDefaultStyle : Style
  mScreenFirstRow : Nat
  tmpLine : Option (List JChar)
  tmpColor : StyleRow
deriving DecidableEq, Repr

/-- A method of the transcript. -/
abbrev TranscriptM (α : Type) : Type := EStateM Exn UnicodeTranscript α

namespace UnicodeTranscript

/-- `new UnicodeTranscript(columns, totalRows, screenRows, defaultStyle)` -/
def create (columns totalRows screenRows : Nat) (defaultStyle : Style) : UnicodeTranscript where
  mLines := List.replicate totalRows none
  mColor := List.replicate totalRows none
  mLineWrap := List.replicate totalRows false
  mTotalRows := totalRows
  mScreenRows := screenRows
  mColumns := columns
  mActiveTranscriptRows := 0
  mDefaultStyle := defaultStyle
  mScreenFirstRow := 0
  tmpLine := none
  tmpColor := StyleRow.create defaultStyle columns

def getActiveRows (s : UnicodeTranscript) : Nat := s.mActiveTranscriptRows + s.mScreenRows

/-! ## Slots -/

/-- The sums are exact, as they are in an `int` while `2 * mTotalRows` fits into one. -/
def externalToInternalRow (extRow : Int) : TranscriptM Int := do
  let s ← get
  throwIf (extRow < -s.mActiveTranscriptRows ∨ extRow > s.mScreenRows) .illegalArgument
  if extRow ≥ 0 then
    return (s.mScreenFirstRow + extRow) % s.mTotalRows
  else if -extRow > s.mScreenFirstRow then
    return s.mTotalRows + s.mScreenFirstRow + extRow
  else
    return s.mScreenFirstRow + extRow

/-- `mLines[i]` -/
def lineAt (i : Int) : TranscriptM (Option Line) := do
  checked (arrayGet (.arrayIndexOutOfBounds .mLines) (← get).mLines i)

/-- `mLines[i] = line` -/
def setLine (i : Int) (line : Option Line) : TranscriptM Unit := do
  let s ← get
  let lines ← checked (arraySet (.arrayIndexOutOfBounds .mLines) s.mLines i line)
  set { s with mLines := lines }

/-- `mColor[i]` -/
def colorAt (i : Int) : TranscriptM (Option StyleRow) := do
  checked (arrayGet (.arrayIndexOutOfBounds .mColor) (← get).mColor i)

/-- `mColor[i] = color` -/
def setColor (i : Int) (color : Option StyleRow) : TranscriptM Unit := do
  let s ← get
  let colors ← checked (arraySet (.arrayIndexOutOfBounds .mColor) s.mColor i color)
  set { s with mColor := colors }

/-- `mLineWrap[i]` -/
def lineWrapAt (i : Int) : TranscriptM Bool := do
  checked (arrayGet (.arrayIndexOutOfBounds .mLineWrap) (← get).mLineWrap i)

/-- `mLineWrap[i] = wrap` -/
def storeLineWrap (i : Int) (wrap : Bool) : TranscriptM Unit := do
  let s ← get
  let flags ← checked (arraySet (.arrayIndexOutOfBounds .mLineWrap) s.mLineWrap i wrap)
  set { s with mLineWrap := flags }

/-- A use of an object that is not there. -/
def nonNull {α : Type} : Option α → TranscriptM α
  | some a => pure a
  | none => throw .nullPointer

def setLineWrap (row : Int) : TranscriptM Unit := do
  storeLineWrap (← externalToInternalRow row) true

def getLineWrap (row : Int) : TranscriptM Bool := do
  lineWrapAt (← externalToInternalRow row)

/-! ## Scrolling -/

/-- The slow path of `blockCopyLines`, row by row in the given order. -/
def copyRowsInOrder {α : Type} (oob : Exn) (totalRows src dst : Int) :
    List Nat → List α → Except Exn (List α)
  | [], rows => .ok rows
  | i :: order, rows => do
      let a ← arrayGet oob rows ((src + i) % totalRows)
      copyRowsInOrder oob totalRows src dst order (← arraySet oob rows ((dst + i) % totalRows) a)

/-- What `blockCopyLines` does to one of the three arrays. -/
def copyRows {α : Type} (oob : Exn) (totalRows : Int) (rows : List α) (src len shift : Int) :
    Except Exn (List α) :=
  let dst := if src + shift ≥ 0 then (src + shift) % totalRows else totalRows + src + shift
  if src + len ≤ totalRows ∧ dst + len ≤ totalRows then
    -- Fast path -- no wraparound
    arraycopy oob rows src rows dst len
  else if shift < 0 then
    -- Do the copy from top to bottom
    copyRowsInOrder oob totalRows src dst (List.range len.toNat) rows
  else
    -- Do the copy from bottom to top
    copyRowsInOrder oob totalRows src dst (List.range len.toNat).reverse rows

def blockCopyLines (src len shift : Int) : TranscriptM Unit := do
  let s ← get
  let lines ← checked
    (copyRows (.arrayIndexOutOfBounds .mLines) s.mTotalRows s.mLines src len shift)
  let color ← checked
    (copyRows (.arrayIndexOutOfBounds .mColor) s.mTotalRows s.mColor src len shift)
  let lineWrap ← checked
    (copyRows (.arrayIndexOutOfBounds .mLineWrap) s.mTotalRows s.mLineWrap src len shift)
  set { s with mLines := lines, mColor := color, mLineWrap := lineWrap }

/-- Update the screen location, and blank the bottom margin. -/
def advanceScreen (bottomMargin : Int) (style : Style) : TranscriptM Unit := do
  modify fun s => { s with
    mScreenFirstRow := (s.mScreenFirstRow + 1) % s.mTotalRows
    mActiveTranscriptRows :=
      if s.mActiveTranscriptRows < (s.mTotalRows : Int) - s.mScreenRows then
        s.mActiveTranscriptRows + 1
      else s.mActiveTranscriptRows }
  let blankRow ← externalToInternalRow (bottomMargin - 1)
  setLine blankRow none
  setColor blankRow (some (StyleRow.create style (← get).mColumns))
  storeLineWrap blankRow false

def scroll (topMargin bottomMargin : Int) (style : Style) : TranscriptM Unit := do
  let s ← get
  throwIf (topMargin > bottomMargin - 1) .illegalArgument
  throwIf (topMargin < 0) .illegalArgument
  throwIf (bottomMargin > s.mScreenRows) .illegalArgument
  if topMargin = 0 ∧ bottomMargin = s.mScreenRows then
    -- Fast path -- scroll the entire screen
    advanceScreen bottomMargin style
  else
    let screenFirstRow : Int := s.mScreenFirstRow
    let topMarginInt ← externalToInternalRow topMargin
    let bottomMarginInt ← externalToInternalRow bottomMargin
    /- Save the scrolled line, move the lines above it on the screen down one line, move
    the lines on screen below the bottom margin down one line, then insert the scrolled
    line into the transcript -/
    let scrollLine ← lineAt topMarginInt
    let scrollColor ← colorAt topMarginInt
    let scrollLineWrap ← lineWrapAt topMarginInt
    blockCopyLines screenFirstRow topMargin 1
    blockCopyLines bottomMarginInt (s.mScreenRows - bottomMargin) 1
    setLine screenFirstRow scrollLine
    setColor screenFirstRow scrollColor
    storeLineWrap screenFirstRow scrollLineWrap
    advanceScreen bottomMargin style

/-! ## Reading -/

/-- `tmpLine = new char[length]` -/
def allocTmpLine (length : Int) : TranscriptM (List JChar) := do
  throwIf (length < 0) .negativeArraySize
  modify fun s => { s with tmpLine := some (List.replicate length.toNat 0) }
  return List.replicate length.toNat 0

/-- `tmpLine`, long enough for `length` chars. -/
def takeTmpLine (length : Int) : TranscriptM (List JChar) := do
  match (← get).tmpLine with
  | some tmp => if tmp.length < length then allocTmpLine length else return tmp
  | none => allocTmpLine length

/-- Copy `length` chars of `text` into `tmpLine`, followed by a NUL. -/
def fillTmpLine (capacity : Int) (text : List JChar) (start length : Int) :
    TranscriptM (List JChar) := do
  let tmp ← takeTmpLine capacity
  let tmp ← checked (arraycopy (.arrayIndexOutOfBounds .tmpLine) text start tmp 0 length)
  let tmp ← checked (arraySet (.arrayIndexOutOfBounds .tmpLine) tmp length 0)
  modify fun s => { s with tmpLine := some tmp }
  return tmp

def getLine (row x1 x2 : Int) : TranscriptM (Option (List JChar)) := do
  let s ← get
  throwIf (row < -s.mActiveTranscriptRows ∨ row > s.mScreenRows - 1) .illegalArgument
  let columns : Int := s.mColumns
  match ← lineAt (← externalToInternalRow row) with
  | none => return none -- Line is blank
  | some (.basic text) =>
      if x1 = 0 ∧ x2 = columns then return some text
      else return some (← fillTmpLine (columns + 1) text x1 (x2 - x1))
  | some (.full line) =>
      let start ← checked (line.findStartOfColumn x1)
      let stop ← checked (if x2 < columns then line.findStartOfColumn x2 else line.getSpaceUsed)
      return some (← fillTmpLine (stop - start + 1) line.mText start (stop - start))

/-- `getLineColor(row, x1, x2)`; part of a row is copied to `tmpColor`. -/
def getLineColor (row x1 x2 : Int) : TranscriptM (Option StyleRow) := do
  let s ← get
  throwIf (row < -s.mActiveTranscriptRows ∨ row > s.mScreenRows - 1) .illegalArgument
  let r ← externalToInternalRow row
  match ← colorAt r with
  | none => return none
  | some color =>
      if x1 = 0 ∧ x2 = s.mColumns then return some color
      else
        let (color, tmp) ← checked (color.copyTo s.tmpColor x1 0 (x2 - x1))
        setColor r (some color)
        modify fun s => { s with tmpColor := tmp }
        return some tmp

/-! ## Writing -/

variable [Platform]

/-- `allocateBasicLine` and `allocateFullLine`. -/
def allocateLine (row : Int) (line : Line) : TranscriptM Unit := do
  setLine row (some line)
  when ((← colorAt row) = none)
    (setColor row (some (StyleRow.create 0 (← get).mColumns)))

/-- `setChar(column, row, codePoint)` -/
def setChar (column row codePoint : Int) : TranscriptM Unit := do
  let s ← get
  throwIf (row ≥ s.mScreenRows ∨ column ≥ s.mColumns) .illegalArgument
  let r ← externalToInternalRow row
  -- Allocate a row on demand
  when ((← lineAt r) = none)
    (allocateLine r (if isBasicChar codePoint then .basic (List.replicate s.mColumns 32)
      else .full (FullUnicodeLine.create s.mColumns)))
  match ← lineAt r with
  | some (.basic text) =>
      if isBasicChar codePoint then
        -- Fast path -- just put the char in the array
        let text ← checked
          (arraySet (.arrayIndexOutOfBounds .basicLine) text column (toJChar codePoint))
        setLine r (some (.basic text))
      else
        -- Need to switch to the full-featured mode
        let line := FullUnicodeLine.ofBasic text
        setLine r (some (.full line))
        setFull r line
  | some (.full line) => setFull r line
  | none => throw .nullPointer
where
  /-- `line.setChar(column, codePoint)` on the line in slot `r`. -/
  setFull (r : Int) (line : FullUnicodeLine) : TranscriptM Unit :=
    runOn (fun line s => { s with mLines := s.mLines.set r.toNat (some (.full line)) })
      (FullUnicodeLine.setChar column codePoint) line

/-- `setChar(column, row, codePoint, style)` -/
def setCharStyle (column row codePoint : Int) (style : Style) : TranscriptM Unit := do
  setChar column row codePoint
  let r ← externalToInternalRow row
  let color ← nonNull (← colorAt r)
  runOn (fun color s => { s with mColor := s.mColor.set r.toNat (some color) })
    (StyleRow.set column style) color

def blockSet (sx sy w h val : Int) (style : Style) : TranscriptM Unit := do
  let s ← get
  throwIf (sx < 0 ∨ iadd sx w > s.mColumns ∨ sy < 0 ∨ iadd sy h > s.mScreenRows)
    .illegalArgument
  repeatFor h.toNat fun y => repeatFor w.toNat fun x =>
    setCharStyle (sx + x) (sy + y) val style

/-- The loop of `blockCopy` over the chars of the source row. -/
def copyChars (dx extDstRow : Int) : List JChar → JChar → Int → TranscriptM Unit
  | [], _, _ => pure ⟨⟩
  | c :: rest, cHigh, x => do
      if c = 0 ∨ dx + x ≥ (← get).mColumns then return
      else if isHighSurrogate c then copyChars dx extDstRow rest c x
      else
        let codePoint := if isLowSurrogate c then toCodePoint cHigh c else (c.toNat : Int)
        setChar (dx + x) extDstRow codePoint
        copyChars dx extDstRow rest cHigh (x + charWidth codePoint)

/-- `color[srcRow].copy(sx, color[dstRow], dx, w)` -/
def copyColor (srcRow sx dstRow dx w : Int) : TranscriptM Unit := do
  let src ← nonNull (← colorAt srcRow)
  let dst ← nonNull (← colorAt dstRow)
  let (src, dst) ← checked (src.copyTo dst sx dx w)
  setColor srcRow (some src)
  setColor dstRow (some dst)

/-- The body of both loops of `blockCopy`, for row `y` of the rectangle. -/
def copyRow (sx sy w dx dy y : Int) : TranscriptM Unit := do
  let srcRow ← externalToInternalRow (sy + y)
  let dstRow ← externalToInternalRow (dy + y)
  match ← lineAt srcRow, ← lineAt dstRow with
  | some (.basic src), some (.basic dst) =>
      let text ← checked (arraycopy (.arrayIndexOutOfBounds .basicLine) src sx dst dx w)
      setLine dstRow (some (.basic text))
      copyColor srcRow sx dstRow dx w
  | _, _ =>
      match ← getLine (sy + y) sx (sx + w) with
      | none =>
          -- Source line was blank
          blockSet dx (dy + y) w 1 32 (← get).mDefaultStyle
      | some tmp =>
          copyChars dx (dy + y) tmp 0 0
          copyColor srcRow sx dstRow dx w

def blockCopy (sx sy w h dx dy : Int) : TranscriptM Unit := do
  let s ← get
  throwIf (sx < 0 ∨ iadd sx w > s.mColumns ∨ sy < 0 ∨ iadd sy h > s.mScreenRows ∨
    dx < 0 ∨ iadd dx w > s.mColumns ∨ dy < 0 ∨ iadd dy h > s.mScreenRows)
    .illegalArgument
  if sy > dy then
    -- Move in increasing order
    repeatFor h.toNat fun y => copyRow sx sy w dx dy y
  else
    -- Move in decreasing order
    repeatFor h.toNat fun y => copyRow sx sy w dx dy (h - (y + 1))

/-! ## Resizing in place -/

/-- Nothing but blanks, as `resize` sees it: up to a NUL. -/
def isBlankLine : Option Line → Bool
  | none => true
  | some (.basic text) => (text.takeWhile (· ≠ 0)).all (· = 32)
  | some (.full line) => (line.mText.takeWhile (· ≠ 0)).all (· = 32)

/-- Drop the slots behind the screen, which it is about to grow over. -/
def clearSlots (n : Int) : TranscriptM Unit := do
  let s ← get
  repeatFor n.toNat fun i => do
    let index : Int := (s.mScreenFirstRow + s.mScreenRows + i) % s.mTotalRows
    setLine index none
    setColor index none
    storeLineWrap index false

/-- Hide blank lines at the bottom in preference to lines at the top: from row `i` up,
every blank row takes one off `shift`. -/
def hideBlankRows : Nat → Int → Int → TranscriptM Int
  | 0, _, shift => pure shift
  | n + 1, i, shift => do
      if isBlankLine (← lineAt (← externalToInternalRow i)) then
        if shift - 1 = 0 then return 0 else hideBlankRows n (i - 1) (shift - 1)
      else return shift

/-- The rows that the top of the screen moves down by, to leave `newRows` of them. -/
def resizeShift (newRows cursorRow : Int) : TranscriptM Int := do
  let s ← get
  let screenRows : Int := s.mScreenRows
  let activeTranscriptRows : Int := s.mActiveTranscriptRows
  let shift := screenRows - newRows
  if shift < -activeTranscriptRows then
    -- We want to add blank lines at the bottom instead of at the top
    clearSlots (activeTranscriptRows - shift)
    return -activeTranscriptRows
  else if shift > 0 ∧ cursorRow ≠ screenRows - 1 then
    hideBlankRows (screenRows - 1 - cursorRow).toNat (screenRows - 1) shift
  else return shift

/-- `resize(newColumns, newRows, cursor)`: whether it was done, and the new cursor row. -/
def resize (newColumns newRows cursorRow : Int) : TranscriptM (Bool × Int) := do
  let s ← get
  if newColumns ≠ s.mColumns ∨ newRows > s.mTotalRows then return (false, cursorRow)
  let shift ← resizeShift newRows cursorRow
  modify fun s => { s with
    mScreenFirstRow :=
      if shift > 0 ∨ (shift < 0 ∧ s.mScreenFirstRow ≥ -shift) then
        -- All we're doing is moving the top of the screen.
        ((s.mScreenFirstRow + shift) % s.mTotalRows).toNat
      else if shift < 0 then
        -- The new top of the screen wraps around the top of the array.
        (s.mTotalRows + s.mScreenFirstRow + shift).toNat
      else s.mScreenFirstRow
    mActiveTranscriptRows := (s.mActiveTranscriptRows + shift).toNat
    mScreenRows := newRows.toNat }
  return (true, cursorRow - shift)

end UnicodeTranscript

end Kbox.Emulatorview
