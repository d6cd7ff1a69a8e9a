import Kbox.Emulatorview.Platform
import Kbox.Framework.Exceptions

/-!
# `FullUnicodeLine`

A row whose text is UTF-16 with characters of any width.  `mOffset[column]` is
the distance between a column and the place in `mText` where its text starts;
`mOffset[0]`, which would always be 0, holds the number of chars in use.

`setChar` is cut at the comments of the source.  Every piece reads and writes
the fields in the order of the source, so that a throw leaves what was written
before it.
-/

namespace Kbox.Emulatorview

open Kbox.Framework

structure FullUnicodeLine where
  mText : List JChar
  mOffset : List Int
  mColumns : Nat
deriving DecidableEq, Repr

/-- A method of a line. -/
abbrev LineM (α : Type) : Type := EStateM Exn FullUnicodeLine α

namespace FullUnicodeLine

/-- `(int)(SPARE_CAPACITY_FACTOR * columns)`, which is exact up to 2^22 columns. -/
def spareCapacity (columns : Nat) : Nat := 3 * columns / 2

/-- `new FullUnicodeLine(basicLine)` -/
def ofBasic (basicLine : List JChar) : FullUnicodeLine where
  mText := basicLine ++ List.replicate (spareCapacity basicLine.length - basicLine.length) 0
  mOffset := (List.replicate basicLine.length (0 : Int)).set 0 (toShort basicLine.length)
  mColumns := basicLine.length

/-- `new FullUnicodeLine(columns)` -/
def create (columns : Nat) : FullUnicodeLine := ofBasic (List.replicate columns 32)

def offsetAt (line : FullUnicodeLine) (i : Int) : Except Exn Int :=
  arrayGet (.arrayIndexOutOfBounds .mOffset) line.mOffset i

def getSpaceUsed (line : FullUnicodeLine) : Except Exn Int := line.offsetAt 0

def findStartOfColumn (line : FullUnicodeLine) (column : Int) : Except Exn Int :=
  if column = 0 then .ok 0
  else do
    let offset ← line.offsetAt column
    return column + offset

/-! ## Writing -/

/-- `mOffset[i] = (short) value` -/
def setOffset (i value : Int) : LineM Unit := do
  let line ← get
  let offset ← checked
    (arraySet (.arrayIndexOutOfBounds .mOffset) line.mOffset i (toShort value))
  MonadStateOf.set { line with mOffset := offset }

/-- `text[i] = c` -/
def setText (i : Int) (c : JChar) : LineM Unit := do
  let line ← get
  let text ← checked (arraySet (.arrayIndexOutOfBounds .mText) line.mText i c)
  MonadStateOf.set { line with mText := text }

/-- `System.arraycopy(text, src, text, dst, len)` -/
def moveText (src dst len : Int) : LineM Unit := do
  let line ← get
  let text ← checked
    (arraycopy (.arrayIndexOutOfBounds .mText) line.mText src line.mText dst len)
  MonadStateOf.set { line with mText := text }

/-- `Character.toChars(codePoint, text, pos)` -/
def putChars [Platform] (codePoint pos : Int) : LineM Unit := do
  throwIf (codePoint < 0 ∨ codePoint > 0x10ffff) .illegalArgument
  let line ← get
  let text ← checked (arraycopy (.arrayIndexOutOfBounds .mText) (toChars codePoint) 0
    line.mText pos (charCount codePoint))
  MonadStateOf.set { line with mText := text }

/-- Move the text from `src` on to `dst > src`, into a longer array if it does not fit;
a new array takes over only the text before `keep`. -/
def makeRoom (keep src dst spaceUsed : Int) : LineM Unit := do
  let line ← get
  if spaceUsed + (dst - src) > line.mText.length then
    -- We need to grow the array
    let newText := List.replicate (line.mText.length + line.mColumns) (0 : JChar)
    let newText ← checked (arraycopy (.arrayIndexOutOfBounds .mText) line.mText 0 newText 0 keep)
    let newText ← checked (arraycopy (.arrayIndexOutOfBounds .mText) line.mText src newText dst
      (spaceUsed - src))
    MonadStateOf.set { line with mText := newText }
  else
    moveText src dst (spaceUsed - src)

/-- Update the offset table behind `column`; a shift of 0 leaves every `short` as it is. -/
def shiftOffsets (column shift : Int) : LineM Unit :=
  modify fun line => { line with
    mOffset := line.mOffset.mapIdx fun i o => if (i : Int) > column then toShort (o + shift) else o }

/-- Correct the offset for the next column to reflect width change. -/
def correctOffset (column value : Int) : LineM Unit := do
  if column = 0 then setOffset 1 value
  else setOffset (column + 1) ((← checked ((← get).offsetAt column)) + value)

/-- Width 2 to width 1: pad with a space. -/
def padNarrow (column pos newLen shift spaceUsed : Int) : LineM Unit := do
  let columns : Int := (← get).mColumns
  let nextPos := pos + newLen
  makeRoom nextPos nextPos (nextPos + 1) spaceUsed
  setText nextPos 32
  setOffset 0 ((← checked (← get).getSpaceUsed) + 1)
  when (column = 0 ∨ column + 1 < columns) (correctOffset column (newLen - 1))
  shiftOffsets (column + 1) (shift + 1)

/-- Where the text of the next column ends, which is `nextWidth` columns wide. -/
def nextEnd (line : FullUnicodeLine) (column nextWidth shift spaceUsed : Int) :
    Except Exn Int :=
  if column + nextWidth + 1 < line.mColumns then do
    return (← line.findStartOfColumn (column + nextWidth + 1)) + shift
  else .ok spaceUsed

/-- The shift that remains after a wide character has taken the next column over, where a
wide character there leaves a space. -/
def overwriteNext [Platform] (column pos newLen shift spaceUsed : Int) : LineM Int := do
  let line ← get
  let nextPos := pos + newLen
  let nextWidth ← checked (charWidthAt (.arrayIndexOutOfBounds .mText) line.mText nextPos)
  let nextLen := (← checked (line.nextEnd column nextWidth shift spaceUsed)) - nextPos
  if nextWidth = 2 then
    setText nextPos 32
    -- Shift the array to match
    if nextLen > 1 then
      moveText (nextPos + nextLen) (nextPos + 1) (spaceUsed - nextPos - nextLen)
      setOffset 0 ((← checked (← get).getSpaceUsed) - (nextLen - 1))
      return shift - (nextLen - 1)
    else return shift
  else
    -- Shift the array leftwards
    moveText (nextPos + nextLen) nextPos (spaceUsed - nextPos - nextLen)
    -- Truncate the line
    setOffset 0 ((← checked (← get).getSpaceUsed) - nextLen)
    return shift - nextLen

/-- Width 1 to width 2: clobber the contents of the next column. -/
def clobberNext [Platform] (column pos newLen shift spaceUsed : Int) : LineM Unit := do
  let columns : Int := (← get).mColumns
  if column = columns - 1 then
    -- A width 2 character doesn't fit in the last column.
    setText pos 32
    setOffset 0 (pos + 1)
  else if column = columns - 2 then
    setOffset (column + 1) ((← checked ((← get).offsetAt column)) - 1)
    -- Truncate the line after this character.
    setOffset 0 (pos + newLen)
  else
    let shift ← overwriteNext column pos newLen shift spaceUsed
    correctOffset column (-1)
    shiftOffsets (column + 1) shift

/-- The number of elements of `mText` that the column's text takes. -/
def columnLength [Platform] (line : FullUnicodeLine) (column pos width : Int) :
    Except Exn Int := do
  let stop ← (if column + width < line.mColumns then line.findStartOfColumn (column + width)
    else line.getSpaceUsed)
  return stop - pos

def setChar [Platform] (column codePoint : Int) : LineM Unit := do
  let line ← get
  throwIf (column < 0 ∨ column ≥ line.mColumns) .illegalArgument
  let spaceUsed ← checked line.getSpaceUsed
  let pos ← checked (line.findStartOfColumn column)
  let width := charWidth codePoint
  let oldWidth ← checked (charWidthAt (.arrayIndexOutOfBounds .mText) line.mText pos)
  let oldLen ← checked (line.columnLength column pos oldWidth)
  -- Combining characters are added to the contents of the column
  let newLen := charCount codePoint + (if width = 0 then oldLen else 0)
  let shift := newLen - oldLen
  -- Shift the rest of the line right to make room if necessary
  when (shift > 0) (makeRoom pos (pos + oldLen) (pos + newLen) spaceUsed)
  -- Store the character
  putChars codePoint (if width > 0 then pos else pos + oldLen)
  -- Shift the rest of the line left to eliminate gaps if necessary
  when (shift < 0) (moveText (pos + oldLen) (pos + newLen) (spaceUsed - pos - oldLen))
  let spaceUsed := spaceUsed + shift
  when (shift ≠ 0) (setOffset 0 spaceUsed)
  if oldWidth = 2 ∧ width = 1 then padNarrow column pos newLen shift spaceUsed
  else if oldWidth = 1 ∧ width = 2 then clobberNext column pos newLen shift spaceUsed
  else shiftOffsets column shift

end FullUnicodeLine

end Kbox.Emulatorview
