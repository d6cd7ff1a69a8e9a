import Kbox.Exception
import Kbox.Framework.Exceptions
import Kbox.Framework.Arrays

/-!
# `kevinboone.androidterm.session.TranscriptScreen`

The screen and its history in one flat `char` array: the first `mScreenRows`
rows of `mData` are the screen, the rest is a circular buffer of scrolled-off
rows with its oldest row at `mHead`.  `mLineWrap` runs parallel to the rows.

A cell is the `char` of the source, a `BitVec 16`: colours in the high byte,
the character in the low one.  The counters are never negative in the source
and are natural numbers here; row and column arguments are `int`s.  `mRowBuffer`
is scratch space, and only its length is ever looked at.
-/

namespace Kbox.Session

open Kbox.Framework

structure TranscriptScreen where
  mColumns : Nat
  mTotalRows : Nat
  mActiveTranscriptRows : Nat
  mHead : Nat
  mActiveRows : Nat
  mScreenRows : Nat
  mData : List JChar
  mRowBuffer : List JChar
  mLineWrap : List Bool
deriving DecidableEq, Repr

/-- A method of the screen: it changes the fields and may throw. -/
abbrev ScreenM (α : Type) : Type := EStateM Exn TranscriptScreen α

namespace TranscriptScreen

/-- `encode(b, foreColor, backColor)`. -/
def encode (b : Int) (foreColor backColor : Nat) : JChar :=
  ((BitVec.ofNat 32 foreColor <<< 12) ||| (BitVec.ofNat 32 backColor <<< 8) |||
    BitVec.ofInt 32 b).setWidth 16

/-! ## Rows and offsets -/

def externalToInternalRow (row : Int) : ScreenM Int := do
  let s ← get
  throwIf (row < -s.mActiveTranscriptRows ∨ row ≥ s.mScreenRows) .illegalArgument
  if row ≥ 0 then
    return row -- This is a visible row.
  else
    return iadd s.mScreenRows
      ((iadd (iadd s.mHead s.mActiveTranscriptRows) row).tmod s.mActiveTranscriptRows)

/-- `getOffset(externalLine)`. -/
def getOffset (externalLine : Int) : ScreenM Int := do
  let s ← get
  let row ← externalToInternalRow externalLine
  return imul row s.mColumns

def setLineWrap (row : Int) : ScreenM Unit := do
  let r ← externalToInternalRow row
  let s ← get
  let flags ← checked (arraySet (.arrayIndexOutOfBounds .mLineWrap) s.mLineWrap r true)
  set { s with mLineWrap := flags }

/-- `mData[i] = c`. -/
def storeChar (i : Int) (c : JChar) : ScreenM Unit := do
  let s ← get
  let data ← checked (arraySet (.arrayIndexOutOfBounds .mData) s.mData i c)
  MonadStateOf.set { s with mData := data }

def set (x y b : Int) (foreColor backColor : Nat) : ScreenM Unit := do
  let offset ← getOffset y
  storeChar (iadd offset x) (encode b foreColor backColor)

/-- `System.arraycopy(mData, src, mData, dst, len)`. -/
def copyData (src dst len : Int) : ScreenM Unit := do
  let s ← get
  let data ← checked
    (arraycopy (.arrayIndexOutOfBounds .mData) s.mData src s.mData dst len)
  MonadStateOf.set { s with mData := data }

/-- `System.arraycopy(mLineWrap, src, mLineWrap, dst, len)`. -/
def copyLineWrap (src dst len : Int) : ScreenM Unit := do
  let s ← get
  let flags ← checked
    (arraycopy (.arrayIndexOutOfBounds .mLineWrap) s.mLineWrap src s.mLineWrap dst len)
  MonadStateOf.set { s with mLineWrap := flags }

/-! ## Consistency -/

def checkPositive (n : Int) : ScreenM Unit := throwIf (n < 0) .illegalArgument

def checkRange (a b c : Int) : ScreenM Unit := throwIf (a > b ∨ b > c) .illegalArgument

def checkEqual (a b : Int) : ScreenM Unit := throwIf (a ≠ b) .illegalArgument

def consistencyCheck : ScreenM Unit := do
  let s ← get
  checkPositive s.mColumns
  checkPositive s.mTotalRows
  checkRange 0 s.mActiveTranscriptRows s.mTotalRows
  if s.mActiveTranscriptRows = 0 then
    checkEqual s.mHead 0
  else
    checkRange 0 s.mHead (s.mActiveTranscriptRows - 1)
  checkEqual (iadd s.mScreenRows s.mActiveTranscriptRows) s.mActiveRows
  checkRange 0 s.mScreenRows s.mTotalRows
  checkEqual s.mTotalRows s.mLineWrap.length
  checkEqual (imul s.mTotalRows s.mColumns) s.mData.length
  checkEqual s.mColumns s.mRowBuffer.length

/-! ## Block operations -/

/-- One row of `blockSet`: `data[offset + x] = encodedVal` for `x` below `w`. -/
def fillRun (offset w : Int) (encodedVal : JChar) : ScreenM Unit :=
  repeatFor w.toNat fun x => storeChar (offset + x) encodedVal

def blockSet (sx sy w h val : Int) (foreColor backColor : Nat) : ScreenM Unit := do
  let s ← get
  throwIf (sx < 0 ∨ iadd sx w > s.mColumns ∨ sy < 0 ∨ iadd sy h > s.mScreenRows)
    .illegalArgument
  let encodedVal := encode val foreColor backColor
  repeatFor h.toNat fun y => do
    let offset ← getOffset (sy + y)
    fillRun (iadd offset sx) w encodedVal

/-- The body of both loops of `blockCopy`, for row `y` of the rectangle. -/
def copyRow (sx sy w dx dy : Int) (y : Nat) : ScreenM Unit := do
  let srcOffset ← getOffset (sy + y)
  let dstOffset ← getOffset (dy + y)
  copyData (iadd srcOffset sx) (iadd dstOffset dx) w

def blockCopy (sx sy w h dx dy : Int) : ScreenM Unit := do
  let s ← get
  throwIf (sx < 0 ∨ iadd sx w > s.mColumns ∨ sy < 0 ∨ iadd sy h > s.mScreenRows ∨
    dx < 0 ∨ iadd dx w > s.mColumns ∨ dy < 0 ∨ iadd dy h > s.mScreenRows)
    .illegalArgument
  if sy > dy then
    -- Move in increasing order
    repeatFor h.toNat fun y => copyRow sx sy w dx dy y
  else
    -- Move in decreasing order
    repeatFor h.toNat fun y => copyRow sx sy w dx dy (h.toNat - (y + 1))

/-! ## Creation and scrolling -/

/-- `init`: it also runs on a screen in use, when the terminal is resized. -/
def init (columns totalRows screenRows : Nat) (foreColor backColor : Nat) :
    ScreenM Unit := do
  modify fun s => { s with
    mColumns := columns
    mTotalRows := totalRows
    mActiveTranscriptRows := 0
    mHead := 0
    mActiveRows := screenRows
    mScreenRows := screenRows }
  let totalSize := imul columns totalRows
  throwIf (totalSize < 0) .negativeArraySize
  modify fun s => { s with mData := List.replicate totalSize.toNat 0 }
  blockSet 0 0 columns screenRows 32 foreColor backColor
  modify fun s => { s with
    mRowBuffer := List.replicate columns 0
    mLineWrap := List.replicate totalRows false }
  consistencyCheck

/-- An object before its constructor has run. -/
def unallocated : TranscriptScreen where
  mColumns := 0
  mTotalRows := 0
  mActiveTranscriptRows := 0
  mHead := 0
  mActiveRows := 0
  mScreenRows := 0
  mData := []
  mRowBuffer := []
  mLineWrap := []

/-- `new TranscriptScreen(columns, totalRows, screenRows, foreColor, backColor)`. -/
def create (columns totalRows screenRows foreColor backColor : Nat) :
    Except Exn TranscriptScreen :=
  construct (init columns totalRows screenRows foreColor backColor) unallocated

def resize (columns rows foreColor backColor : Nat) : ScreenM Unit := do
  let s ← get
  init columns s.mTotalRows rows foreColor backColor

/-- Make the last transcript row the one to receive a scrolled line. -/
def rollTranscript : ScreenM Unit := do
  let s ← get
  let expansionRows : Int := min 1 ((s.mTotalRows : Int) - s.mActiveRows)
  let rollRows : Int := 1 - expansionRows
  modify fun s => { s with
    mActiveRows := (s.mActiveRows + expansionRows).toNat
    mActiveTranscriptRows := (s.mActiveTranscriptRows + expansionRows).toNat }
  let s ← get
  if s.mActiveTranscriptRows > 0 then
    modify fun s => { s with
      mHead := ((s.mHead + rollRows) % s.mActiveTranscriptRows).toNat }

/-- The moves of `scroll`, once the transcript has a row to receive them. -/
def scrollLines (topMargin bottomMargin : Int) (foreColor backColor : Nat) :
    ScreenM Unit := do
  let s ← get
  -- Block move the scroll line to the transcript
  let topOffset ← getOffset topMargin
  let destOffset ← getOffset (-1)
  copyData topOffset destOffset s.mColumns
  let topLine ← externalToInternalRow topMargin
  let destLine ← externalToInternalRow (-1)
  copyLineWrap topLine destLine 1
  -- Block move the scrolled data up
  let numScrollChars := imul (bottomMargin - topMargin - 1) s.mColumns
  copyData (iadd topOffset s.mColumns) topOffset numScrollChars
  let numScrollLines := bottomMargin - topMargin - 1
  copyLineWrap (topLine + 1) topLine numScrollLines
  -- Erase the bottom line of the scroll region
  blockSet 0 (bottomMargin - 1) s.mColumns 1 32 foreColor backColor
  let last ← externalToInternalRow (bottomMargin - 1)
  let s ← get
  let flags ← checked
    (arraySet (.arrayIndexOutOfBounds .mLineWrap) s.mLineWrap last false)
  MonadStateOf.set { s with mLineWrap := flags }

def scroll (topMargin bottomMargin : Int) (foreColor backColor : Nat) :
    ScreenM Unit := do
  let s ← get
  throwIf (topMargin > bottomMargin - 1) .illegalArgument
  throwIf (topMargin > s.mScreenRows - 1) .illegalArgument
  throwIf (bottomMargin > s.mScreenRows) .illegalArgument
  consistencyCheck
  rollTranscript
  consistencyCheck
  scrollLines topMargin bottomMargin foreColor backColor

/-! ## Reading the text -/

/-- The characters of the row at array offset `offset`, colours stripped. -/
def readRow (offset : Int) (columns : Nat) (data : List JChar) :
    Except Exn (List JChar) :=
  (List.range columns).mapM fun column =>
    (arrayGet (.arrayIndexOutOfBounds .mData) data (offset + column)).map (· &&& 0xff)

/-- The last column that holds something else than a blank, or -1. -/
def lastPrintingChar (rowBuffer : List JChar) : Int :=
  (rowBuffer.zipIdx.foldl (fun last c => if c.1 ≠ 32 then (c.2 : Int) else last) (-1))

/-- `builder.append(rowBuffer, start, len)`: the characters appended. -/
def appended (rowBuffer : List JChar) (start len : Int) : Except Exn (List JChar) :=
  if start < 0 ∨ len < 0 ∨ rowBuffer.length < start + len then
    .error (.arrayIndexOutOfBounds .mRowBuffer)
  else .ok (stretch rowBuffer start.toNat len.toNat)

/-- One row of the loop of `internalGetTranscriptText`. -/
def rowText (selX1 selY1 selX2 selY2 row : Int) : ScreenM (List JChar) := do
  let offset ← getOffset row
  let s ← get
  let rowBuffer ← checked (readRow offset s.mColumns s.mData)
  let last := lastPrintingChar rowBuffer
  if row ≥ selY1 ∧ row ≤ selY2 then
    let x1 := if row = selY1 then selX1 else 0
    let x2 := if row = selY2 then selX2 else s.mColumns
    let r ← externalToInternalRow row
    let wrap ← checked (arrayGet (.arrayIndexOutOfBounds .mLineWrap) s.mLineWrap r)
    if wrap then
      checked (appended rowBuffer x1 (x2 - x1))
    else do
      let text ← checked
        (appended rowBuffer x1 (max 0 (min (x2 - x1 + 1) (last + 1 - x1))))
      return text ++ [10]
  else
    return []

/-- `internalGetTranscriptText`, with `stripColors` set as by both callers. -/
def internalGetTranscriptText (selX1 selY1 selX2 selY2 : Int) :
    ScreenM (List JChar) := do
  let s ← get
  let texts ← (List.range (s.mActiveTranscriptRows + s.mScreenRows)).mapM fun i =>
    rowText selX1 selY1 selX2 selY2 ((i : Int) - s.mActiveTranscriptRows)
  return texts.flatten

def getTranscriptText : ScreenM (List JChar) := do
  let s ← get
  internalGetTranscriptText 0 (-s.mActiveTranscriptRows) s.mColumns s.mScreenRows

def getSelectedText (selX1 selY1 selX2 selY2 : Int) : ScreenM (List JChar) :=
  internalGetTranscriptText selX1 selY1 selX2 selY2

end TranscriptScreen

end Kbox.Session
